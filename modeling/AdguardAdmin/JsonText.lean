import AdguardAdmin.JsonValue
/-!
# JSON texts and the reader

The grammar of JSON, as a relation `Text v t` between a value and the texts that
write it: members in the order they stand, blanks between tokens, any escaping of
strings.  Numbers are kept as they are written.  An unpaired surrogate escape
stands for the replacement character, which is what the agent's decoder makes of it.

`readValue` is the reader: it takes one value off the front of a text and leaves
the rest.  `readValue_sound` and `readValue_text` say that it takes exactly the
texts of the grammar, which makes the value of a text unique.
-/

namespace JsonText

open IpLiterals

/-! ## Blanks -/

def isBlank (c : Char) : Bool := c = ' ' || c = '\t' || c = '\n' || c = '\r'

theorem isBlank_iff {c : Char} :
    isBlank c = true ↔ c = ' ' ∨ c = '\t' ∨ c = '\n' ∨ c = '\r' := by
  simp [isBlank, or_assoc]

def Blank (cs : List Char) : Prop := ∀ c ∈ cs, isBlank c = true

def skip (cs : List Char) : List Char := cs.dropWhile isBlank

/-- Blanks may follow blanks. -/
theorem Blank.append {a b : List Char} (ha : Blank a) (hb : Blank b) : Blank (a ++ b) := by
  intro c hc
  rcases List.mem_append.mp hc with hc | hc
  · exact ha c hc
  · exact hb c hc

theorem blank_nil : Blank [] := fun _ hc => nomatch hc

/-- Blanks are skipped. -/
theorem skip_append {a : List Char} (ha : Blank a) (cs : List Char) : skip (a ++ cs) = skip cs := by
  unfold skip
  induction a with
  | nil => rfl
  | cons c a ih =>
      have hc : isBlank c = true := ha c List.mem_cons_self
      have hrest : Blank a := fun d hd => ha d (List.mem_cons_of_mem c hd)
      rw [List.cons_append, List.dropWhile_cons_of_pos hc, ih hrest]

/-- A text that begins with no blank is left as it is. -/
theorem skip_cons {c : Char} (hc : isBlank c = false) (cs : List Char) :
    skip (c :: cs) = c :: cs := by
  unfold skip
  rw [List.dropWhile_cons_of_neg (by simp [hc])]

/-- What is skipped are blanks. -/
theorem exists_blank_append_skip (cs : List Char) : ∃ a, Blank a ∧ cs = a ++ skip cs := by
  refine ⟨cs.takeWhile isBlank, fun c hc => ?_, ?_⟩
  · exact List.mem_takeWhile_imp hc
  · exact (List.takeWhile_append_dropWhile ..).symm

/-! ## Strings -/

/-- A string body is a sequence of characters and code units. -/
inductive Piece where
  | char (c : Char)
  | unit (n : Nat)
  deriving DecidableEq, Repr

def shortEscape? (e : Char) : Option Char :=
  if e = '"' then some '"'
  else if e = '\\' then some '\\'
  else if e = '/' then some '/'
  else if e = 'b' then some (Char.ofNat 8)
  else if e = 'f' then some (Char.ofNat 12)
  else if e = 'n' then some '\n'
  else if e = 'r' then some '\r'
  else if e = 't' then some '\t'
  else none

def isPlain (c : Char) : Bool := c ≠ '"' && c ≠ '\\' && 0x20 ≤ c.toNat

def hex4? (a b c d : Char) : Option Nat := number? hexDigit? 16 [a, b, c, d]

inductive PieceText : Piece → List Char → Prop where
  | plain {c : Char} (h : isPlain c = true) : PieceText (.char c) [c]
  | short {e c : Char} (h : shortEscape? e = some c) : PieceText (.char c) ['\\', e]
  | unit {a b c d : Char} {n : Nat} (h : hex4? a b c d = some n) :
      PieceText (.unit n) ['\\', 'u', a, b, c, d]

/-- The text of a sequence of pieces. -/
inductive PiecesText : List Piece → List Char → Prop where
  | nil : PiecesText [] []
  | cons {p : Piece} {ps : List Piece} {w ws : List Char} (h : PieceText p w)
      (hs : PiecesText ps ws) : PiecesText (p :: ps) (w ++ ws)

def isHigh (n : Nat) : Bool := 0xd800 ≤ n && n < 0xdc00

def isLow (n : Nat) : Bool := 0xdc00 ≤ n && n < 0xe000

/-- The character of a lone code unit. -/
def unitChar (n : Nat) : Char := if isHigh n || isLow n then Char.ofNat 0xfffd else Char.ofNat n

def pairChar (hi lo : Nat) : Char := Char.ofNat (0x10000 + (hi - 0xd800) * 0x400 + (lo - 0xdc00))

/-- The characters a sequence of pieces stands for; a high and a low code unit in a
row are one character. -/
def unquote : List Piece → List Char
  | [] => []
  | .char c :: ps => c :: unquote ps
  | [.unit n] => [unitChar n]
  | .unit n :: .char c :: ps => unitChar n :: unquote (.char c :: ps)
  | .unit n :: .unit m :: ps =>
      if isHigh n && isLow m then pairChar n m :: unquote ps
      else unitChar n :: unquote (.unit m :: ps)

/-- A quoted string. -/
def StringText (s : String) (t : List Char) : Prop :=
  ∃ ps w, PiecesText ps w ∧ t = '"' :: w ++ ['"'] ∧ s = String.ofList (unquote ps)

/-- One piece off the front of a text. -/
def readPiece : List Char → Option (Piece × List Char)
  | '\\' :: 'u' :: a :: b :: c :: d :: rest => (hex4? a b c d).map fun n => (.unit n, rest)
  | '\\' :: e :: rest => (shortEscape? e).map fun c => (.char c, rest)
  | c :: rest => if isPlain c then some (.char c, rest) else none
  | [] => none

/-- The pieces up to the closing quote. -/
def readPieces : Nat → List Char → Option (List Piece × List Char)
  | 0, _ => none
  | fuel + 1, cs =>
      if cs.head? = some '"' then some ([], cs.tail)
      else do
        let (p, rest) ← readPiece cs
        let (ps, rest') ← readPieces fuel rest
        some (p :: ps, rest')

/-- A piece of a string is read from its text. -/
theorem readPiece_text {p : Piece} {w : List Char} (h : PieceText p w) (rest : List Char) :
    readPiece (w ++ rest) = some (p, rest) := by
  cases h with
  | @plain c h =>
      have hquote : c ≠ '\\' := by
        intro heq
        simp [isPlain, heq] at h
      rw [List.cons_append, List.nil_append, readPiece]
      · rw [if_pos h]
      · rintro _ _ _ _ _ rfl
        exact absurd rfl hquote
      · rintro _ _ rfl
        exact absurd rfl hquote
  | @short e c h =>
      have hu : e ≠ 'u' := by
        rintro rfl
        have hnone : shortEscape? 'u' = none := by decide
        simp [hnone] at h
      rw [List.cons_append, List.cons_append, List.nil_append, readPiece]
      · rw [h]
        rfl
      · rintro _ _ _ _ _ rfl
        exact absurd rfl hu
  | @unit a b c d n h => simp [readPiece, h]

/-- What is read as a piece is a text of it. -/
theorem readPiece_sound {cs rest : List Char} {p : Piece} (h : readPiece cs = some (p, rest)) :
    ∃ w, PieceText p w ∧ cs = w ++ rest := by
  unfold readPiece at h
  split at h
  · obtain ⟨n, hn, heq⟩ := Option.map_eq_some_iff.mp h
    obtain ⟨rfl, rfl⟩ := Prod.mk.inj heq
    exact ⟨_, .unit hn, rfl⟩
  · obtain ⟨c, hc, heq⟩ := Option.map_eq_some_iff.mp h
    obtain ⟨rfl, rfl⟩ := Prod.mk.inj heq
    exact ⟨_, .short hc, rfl⟩
  · split at h
    · next hplain =>
        obtain ⟨rfl, rfl⟩ := Prod.mk.inj (Option.some.inj h)
        exact ⟨_, .plain hplain, rfl⟩
    · exact nomatch h
  · exact nomatch h

/-- A piece starts with a character other than the quote. -/
theorem PieceText.head {p : Piece} {w : List Char} (h : PieceText p w) :
    ∃ c tail, w = c :: tail ∧ c ≠ '"' := by
  cases h with
  | @plain c h =>
      refine ⟨c, [], rfl, ?_⟩
      rintro rfl
      exact absurd h (by decide)
  | short h => exact ⟨'\\', _, rfl, by decide⟩
  | unit h => exact ⟨'\\', _, rfl, by decide⟩

/-- The pieces of a string are read up to the closing quote. -/
theorem readPieces_text {ps : List Piece} {w : List Char} (h : PiecesText ps w) (rest : List Char)
    {fuel : Nat} (hfuel : w.length < fuel) :
    readPieces fuel (w ++ '"' :: rest) = some (ps, rest) := by
  induction h generalizing fuel with
  | nil =>
      cases fuel with
      | zero => omega
      | succ fuel => simp [readPieces]
  | @cons p ps w ws hp hs ih =>
      obtain ⟨c, tail, rfl, hc⟩ := hp.head
      cases fuel with
      | zero => omega
      | succ fuel =>
          have hlen : ws.length < fuel := by
            simp only [List.length_append, List.length_cons] at hfuel
            omega
          rw [List.append_assoc, readPieces, if_neg (by simpa using hc), readPiece_text hp]
          simp [ih hlen]

/-- What is read as pieces is a text of them, followed by the closing quote. -/
theorem readPieces_sound {fuel : Nat} {cs rest : List Char} {ps : List Piece}
    (h : readPieces fuel cs = some (ps, rest)) :
    ∃ w, PiecesText ps w ∧ cs = w ++ '"' :: rest := by
  induction fuel generalizing cs ps with
  | zero => exact nomatch h
  | succ fuel ih =>
      rw [readPieces] at h
      split at h
      · next hquote =>
          obtain ⟨rfl, rfl⟩ := Prod.mk.inj (Option.some.inj h)
          cases cs with
          | nil => exact nomatch hquote
          | cons c cs =>
              obtain rfl : c = '"' := by simpa using hquote
              exact ⟨[], .nil, rfl⟩
      · simp only [Option.bind_eq_bind, Option.bind_eq_some_iff, Option.some.injEq,
          Prod.mk.injEq] at h
        obtain ⟨⟨p, r⟩, hp, ⟨ps', r'⟩, hps, rfl, rfl⟩ := h
        obtain ⟨w, hw, rfl⟩ := readPiece_sound hp
        obtain ⟨ws, hws, rfl⟩ := ih hps
        exact ⟨w ++ ws, .cons hw hws, by rw [List.append_assoc]⟩

/-! ## Numbers -/

def isDigit (c : Char) : Bool := '0' ≤ c && c ≤ '9'

def IsDigits (ds : List Char) : Prop := ds ≠ [] ∧ ∀ c ∈ ds, isDigit c = true

/-- The integer part: a zero, or digits that do not start with one. -/
def IntPart (t : List Char) : Prop := t = ['0'] ∨ (IsDigits t ∧ t.head? ≠ some '0')

def FracPart (t : List Char) : Prop := t = [] ∨ ∃ ds, IsDigits ds ∧ t = '.' :: ds

def ExpPart (t : List Char) : Prop :=
  t = [] ∨ ∃ e sign ds, (e = 'e' ∨ e = 'E') ∧ (sign = [] ∨ sign = ['+'] ∨ sign = ['-']) ∧
    IsDigits ds ∧ t = e :: (sign ++ ds)

def IsNumber (t : List Char) : Prop :=
  ∃ sign int frac exp, (sign = [] ∨ sign = ['-']) ∧ IntPart int ∧ FracPart frac ∧ ExpPart exp ∧
    t = sign ++ (int ++ (frac ++ exp))

/-- A text that does not carry on a number. -/
def Follows (rest : List Char) : Prop :=
  ∀ c, rest.head? = some c → isDigit c = false ∧ c ≠ '.' ∧ c ≠ 'e' ∧ c ≠ 'E'

def readDigits (cs : List Char) : Option (List Char × List Char) :=
  if cs.takeWhile isDigit = [] then none
  else some (cs.takeWhile isDigit, cs.dropWhile isDigit)

def readInt (cs : List Char) : Option (List Char × List Char) :=
  if cs.head? = some '0' then some (['0'], cs.tail) else readDigits cs

def readFrac (cs : List Char) : Option (List Char × List Char) :=
  if cs.head? = some '.' then (readDigits cs.tail).map fun p => ('.' :: p.1, p.2)
  else some ([], cs)

def readSign (signs : List Char) : List Char → List Char × List Char
  | [] => ([], [])
  | c :: rest => if c ∈ signs then ([c], rest) else ([], c :: rest)

def readExp : List Char → Option (List Char × List Char)
  | [] => some ([], [])
  | c :: rest =>
      if c = 'e' ∨ c = 'E' then do
        let (sign, r) := readSign ['+', '-'] rest
        let (ds, r') ← readDigits r
        some (c :: (sign ++ ds), r')
      else some ([], c :: rest)

def readNumber (cs : List Char) : Option (List Char × List Char) := do
  let (sign, r) := readSign ['-'] cs
  let (int, r) ← readInt r
  let (frac, r) ← readFrac r
  let (exp, r) ← readExp r
  some (sign ++ (int ++ (frac ++ exp)), r)

/-- Digits are read up to the first other character. -/
theorem readDigits_text {ds : List Char} (hds : IsDigits ds) {rest : List Char}
    (hrest : ∀ c, rest.head? = some c → isDigit c = false) :
    readDigits (ds ++ rest) = some (ds, rest) := by
  have htake : rest.takeWhile isDigit = [] := by
    cases rest with
    | nil => rfl
    | cons c rest => rw [List.takeWhile_cons_of_neg (by simp [hrest c rfl])]
  have hdrop : rest.dropWhile isDigit = rest := by
    cases rest with
    | nil => rfl
    | cons c rest => rw [List.dropWhile_cons_of_neg (by simp [hrest c rfl])]
  have hall : (ds ++ rest).takeWhile isDigit = ds := by
    rw [List.takeWhile_append_of_pos hds.2, htake, List.append_nil]
  unfold readDigits
  rw [hall, if_neg hds.1, List.dropWhile_append_of_pos hds.2, hdrop]

/-- What is read as digits are digits. -/
theorem readDigits_sound {cs ds rest : List Char} (h : readDigits cs = some (ds, rest)) :
    IsDigits ds ∧ cs = ds ++ rest := by
  unfold readDigits at h
  split at h
  · exact nomatch h
  · next hne =>
      obtain ⟨rfl, rfl⟩ := Prod.mk.inj (Option.some.inj h)
      refine ⟨⟨hne, fun c hc => List.mem_takeWhile_imp hc⟩, ?_⟩
      exact (List.takeWhile_append_dropWhile ..).symm

/-- Digits start with a digit. -/
theorem IsDigits.head {ds : List Char} (h : IsDigits ds) :
    ∃ c tail, ds = c :: tail ∧ isDigit c = true := by
  obtain ⟨c, tail, rfl⟩ := List.exists_cons_of_ne_nil h.1
  exact ⟨c, tail, rfl, h.2 c List.mem_cons_self⟩

/-- The integer part is read where no digit follows. -/
theorem readInt_text {t : List Char} (ht : IntPart t) {rest : List Char}
    (hrest : ∀ c, rest.head? = some c → isDigit c = false) :
    readInt (t ++ rest) = some (t, rest) := by
  unfold readInt
  rcases ht with rfl | ⟨hds, hhead⟩
  · rfl
  · obtain ⟨c, tail, rfl, -⟩ := hds.head
    rw [if_neg (by simpa using hhead), readDigits_text hds hrest]

/-- What is read as an integer part is one. -/
theorem readInt_sound {cs t rest : List Char} (h : readInt cs = some (t, rest)) :
    IntPart t ∧ cs = t ++ rest := by
  unfold readInt at h
  split at h
  · next hzero =>
      obtain ⟨rfl, rfl⟩ := Prod.mk.inj (Option.some.inj h)
      cases cs with
      | nil => exact nomatch hzero
      | cons c cs =>
          obtain rfl : c = '0' := by simpa using hzero
          exact ⟨Or.inl rfl, rfl⟩
  · next hzero =>
      obtain ⟨hds, rfl⟩ := readDigits_sound h
      obtain ⟨c, tail, rfl, -⟩ := hds.head
      exact ⟨Or.inr ⟨hds, by simpa using hzero⟩, rfl⟩

/-- The fraction is read where neither a digit nor a point follows. -/
theorem readFrac_text {t : List Char} (ht : FracPart t) {rest : List Char}
    (hrest : ∀ c, rest.head? = some c → isDigit c = false ∧ c ≠ '.') :
    readFrac (t ++ rest) = some (t, rest) := by
  unfold readFrac
  rcases ht with rfl | ⟨ds, hds, rfl⟩
  · rw [List.nil_append, if_neg]
    intro hdot
    exact (hrest '.' hdot).2 rfl
  · simp [readDigits_text hds fun c hc => (hrest c hc).1]

/-- What is read as a fraction is one. -/
theorem readFrac_sound {cs t rest : List Char} (h : readFrac cs = some (t, rest)) :
    FracPart t ∧ cs = t ++ rest := by
  unfold readFrac at h
  split at h
  · next hdot =>
      obtain ⟨⟨ds, r⟩, hds, heq⟩ := Option.map_eq_some_iff.mp h
      obtain ⟨rfl, rfl⟩ := Prod.mk.inj heq
      obtain ⟨hdigits, htail⟩ := readDigits_sound hds
      cases cs with
      | nil => exact nomatch hdot
      | cons c cs =>
          obtain rfl : c = '.' := by simpa using hdot
          exact ⟨Or.inr ⟨ds, hdigits, rfl⟩, congrArg ('.' :: ·) htail⟩
  · obtain ⟨rfl, rfl⟩ := Prod.mk.inj (Option.some.inj h)
    exact ⟨Or.inl rfl, rfl⟩

private theorem not_sign_of_isDigit {c : Char} (h : isDigit c = true) : c ≠ '+' ∧ c ≠ '-' := by
  constructor <;> (rintro rfl; exact absurd h (by decide))

/-- A sign is read, or its absence. -/
theorem readSign_text {signs : List Char} {sign : List Char}
    (hsign : sign = [] ∨ ∃ c ∈ signs, sign = [c]) {d : Char} {rest : List Char} (hd : d ∉ signs) :
    readSign signs (sign ++ d :: rest) = (sign, d :: rest) := by
  rcases hsign with rfl | ⟨c, hc, rfl⟩
  · simp [readSign, hd]
  · simp [readSign, hc]

/-- What is read as a sign is one of the signs or nothing. -/
theorem readSign_sound (signs cs : List Char) :
    ((readSign signs cs).1 = [] ∨ ∃ c ∈ signs, (readSign signs cs).1 = [c]) ∧
      cs = (readSign signs cs).1 ++ (readSign signs cs).2 := by
  cases cs with
  | nil => exact ⟨Or.inl rfl, rfl⟩
  | cons c cs =>
      by_cases hc : c ∈ signs
      · simp [readSign, hc]
      · simp [readSign, hc]

/-- The exponent is read where nothing follows that could go on with a number. -/
theorem readExp_text {t : List Char} (ht : ExpPart t) {rest : List Char} (hrest : Follows rest) :
    readExp (t ++ rest) = some (t, rest) := by
  rcases ht with rfl | ⟨e, sign, ds, he, hsign, hds, rfl⟩
  · cases rest with
    | nil => rfl
    | cons c rest =>
        obtain ⟨-, -, hlower, hupper⟩ := hrest c rfl
        simp [readExp, hlower, hupper]
  · obtain ⟨d, tail, rfl, hd⟩ := hds.head
    have hmember : sign = [] ∨ ∃ c ∈ ['+', '-'], sign = [c] := by
      rcases hsign with rfl | rfl | rfl <;> simp
    have hnot : d ∉ ['+', '-'] := by
      obtain ⟨hplus, hminus⟩ := not_sign_of_isDigit hd
      simp [hplus, hminus]
    have hdigits := readDigits_text hds fun c hc => (hrest c hc).1
    rw [List.cons_append, List.append_assoc, List.cons_append, readExp, if_pos he]
    rw [List.cons_append] at hdigits
    simp [readSign_text hmember hnot, hdigits]

/-- What is read as an exponent is one. -/
theorem readExp_sound {cs t rest : List Char} (h : readExp cs = some (t, rest)) :
    ExpPart t ∧ cs = t ++ rest := by
  cases cs with
  | nil =>
      obtain ⟨rfl, rfl⟩ := Prod.mk.inj (Option.some.inj h)
      exact ⟨Or.inl rfl, rfl⟩
  | cons c cs =>
      rw [readExp] at h
      split at h
      · next he =>
          simp only [Option.bind_eq_bind, Option.bind_eq_some_iff, Option.some.injEq,
            Prod.mk.injEq] at h
          obtain ⟨⟨ds, r⟩, hds, rfl, rfl⟩ := h
          obtain ⟨hdigits, hrest⟩ := readDigits_sound hds
          obtain ⟨hsign, hcut⟩ := readSign_sound ['+', '-'] cs
          refine ⟨Or.inr ⟨c, _, ds, he, ?_, hdigits, rfl⟩, ?_⟩
          · simpa using hsign
          · rw [List.cons_append, List.append_assoc, ← hrest, ← hcut]
      · obtain ⟨rfl, rfl⟩ := Prod.mk.inj (Option.some.inj h)
        exact ⟨Or.inl rfl, rfl⟩

/-- What stands behind the fraction does not carry the number on. -/
private theorem head_expPart {t : List Char} (ht : ExpPart t) {rest : List Char}
    (hrest : Follows rest) :
    ∀ c, (t ++ rest).head? = some c → isDigit c = false ∧ c ≠ '.' := by
  intro c hc
  rcases ht with rfl | ⟨e, sign, ds, he, -, -, rfl⟩
  · exact ⟨(hrest c hc).1, (hrest c hc).2.1⟩
  · obtain rfl : e = c := by simpa using hc
    rcases he with rfl | rfl <;> decide

/-- No digit follows the integer part. -/
private theorem head_fracPart {t : List Char} (ht : FracPart t) {rest : List Char}
    (hrest : ∀ c, rest.head? = some c → isDigit c = false) :
    ∀ c, (t ++ rest).head? = some c → isDigit c = false := by
  intro c hc
  rcases ht with rfl | ⟨ds, -, rfl⟩
  · exact hrest c hc
  · obtain rfl : '.' = c := by simpa using hc
    decide

/-- The integer part begins with a digit. -/
private theorem head_intPart {t : List Char} (ht : IntPart t) :
    ∃ c tail, t = c :: tail ∧ isDigit c = true := by
  rcases ht with rfl | ⟨hds, -⟩
  · exact ⟨'0', [], rfl, by decide⟩
  · exact hds.head

/-- A number is read where nothing follows that could go on with it. -/
theorem readNumber_text {t : List Char} (ht : IsNumber t) {rest : List Char}
    (hrest : Follows rest) : readNumber (t ++ rest) = some (t, rest) := by
  obtain ⟨sign, int, frac, exp, hsign, hint, hfrac, hexp, rfl⟩ := ht
  have hexpRead := readExp_text hexp hrest
  have hbehindFrac := head_expPart hexp hrest
  have hfracRead := readFrac_text hfrac hbehindFrac
  have hintRead := readInt_text hint (head_fracPart hfrac fun c hc => (hbehindFrac c hc).1)
  obtain ⟨d, tail, rfl, hd⟩ := head_intPart hint
  have hmember : sign = [] ∨ ∃ c ∈ ['-'], sign = [c] := by
    rcases hsign with rfl | rfl <;> simp
  have hnot : d ∉ ['-'] := by simpa using (not_sign_of_isDigit hd).2
  have hsignRead : readSign ['-'] (sign ++ d :: (tail ++ (frac ++ (exp ++ rest)))) =
      (sign, d :: (tail ++ (frac ++ (exp ++ rest)))) := readSign_text hmember hnot
  rw [List.cons_append] at hintRead
  unfold readNumber
  rw [List.append_assoc, List.append_assoc, List.append_assoc, List.cons_append, hsignRead]
  simp [hintRead, hfracRead, hexpRead]

/-- What is read as a number is one. -/
theorem readNumber_sound {cs t rest : List Char} (h : readNumber cs = some (t, rest)) :
    IsNumber t ∧ cs = t ++ rest := by
  unfold readNumber at h
  simp only [Option.bind_eq_bind, Option.bind_eq_some_iff, Option.some.injEq, Prod.mk.injEq] at h
  obtain ⟨⟨int, r₁⟩, hint, ⟨frac, r₂⟩, hfrac, ⟨exp, r₃⟩, hexp, rfl, rfl⟩ := h
  obtain ⟨hsign, hcut⟩ := readSign_sound ['-'] cs
  obtain ⟨hintPart, hint⟩ := readInt_sound hint
  obtain ⟨hfracPart, hfrac⟩ := readFrac_sound hfrac
  obtain ⟨hexpPart, hexp⟩ := readExp_sound hexp
  dsimp only at hint hfrac hexp
  refine ⟨⟨_, int, frac, exp, ?_, hintPart, hfracPart, hexpPart, rfl⟩, ?_⟩
  · simpa using hsign
  · rw [List.append_assoc, List.append_assoc, List.append_assoc, ← hexp, ← hfrac, ← hint, ← hcut]

/-- A number starts with a digit or a minus sign. -/
theorem IsNumber.head {t : List Char} (h : IsNumber t) :
    ∃ c tail, t = c :: tail ∧ (isDigit c = true ∨ c = '-') := by
  obtain ⟨sign, int, frac, exp, hsign, hint, -, -, rfl⟩ := h
  rcases hsign with rfl | rfl
  · obtain ⟨d, tail, rfl, hd⟩ := head_intPart hint
    exact ⟨d, _, rfl, Or.inl hd⟩
  · exact ⟨'-', _, rfl, Or.inr rfl⟩

/-! ## Values -/

mutual

/-- `t` is a text of the value `v`, without blanks around it. -/
def Text : Json String → List Char → Prop
  | .null, t => t = "null".toList
  | .bool true, t => t = "true".toList
  | .bool false, t => t = "false".toList
  | .num n, t => t = n.toList ∧ IsNumber t
  | .str s, t => StringText s t
  | .arr items, t => ∃ body, t = '[' :: body ++ [']'] ∧ ItemsText items body
  | .obj fields, t => ∃ body, t = '{' :: body ++ ['}'] ∧ FieldsText fields body

/-- The items between the brackets. -/
def ItemsText : List (Json String) → List Char → Prop
  | [], body => Blank body
  | [v], body => ∃ a t b, Blank a ∧ Text v t ∧ Blank b ∧ body = a ++ (t ++ b)
  | v :: w :: rest, body => ∃ a t b body', Blank a ∧ Text v t ∧ Blank b ∧
      ItemsText (w :: rest) body' ∧ body = a ++ (t ++ (b ++ ',' :: body'))

/-- The members between the braces. -/
def FieldsText : List (String × Json String) → List Char → Prop
  | [], body => Blank body
  | [(k, v)], body => ∃ a kt b c t d, Blank a ∧ StringText k kt ∧ Blank b ∧ Blank c ∧ Text v t ∧
      Blank d ∧ body = a ++ (kt ++ (b ++ ':' :: (c ++ (t ++ d))))
  | (k, v) :: w :: rest, body => ∃ a kt b c t d body', Blank a ∧ StringText k kt ∧ Blank b ∧
      Blank c ∧ Text v t ∧ Blank d ∧ FieldsText (w :: rest) body' ∧
      body = a ++ (kt ++ (b ++ ':' :: (c ++ (t ++ (d ++ ',' :: body')))))

end

/-- The text behind a word, if it starts with it. -/
def word? (w cs : List Char) : Option (List Char) :=
  if w.isPrefixOf cs then some (cs.drop w.length) else none

mutual

/-- One value off the front of a text. -/
def readValue : Nat → List Char → Option (Json String × List Char)
  | 0, _ => none
  | _ + 1, [] => none
  | fuel + 1, c :: rest =>
      if c = '"' then do
        let (ps, r) ← readPieces fuel rest
        some (.str (String.ofList (unquote ps)), r)
      else if c = '[' then
        if (skip rest).head? = some ']' then some (.arr [], (skip rest).tail)
        else do
          let (vs, r) ← readItems fuel (skip rest)
          some (.arr vs, r)
      else if c = '{' then
        if (skip rest).head? = some '}' then some (.obj [], (skip rest).tail)
        else do
          let (kvs, r) ← readFields fuel (skip rest)
          some (.obj kvs, r)
      else if c = 'n' then (word? "ull".toList rest).map fun r => (.null, r)
      else if c = 't' then (word? "rue".toList rest).map fun r => (.bool true, r)
      else if c = 'f' then (word? "alse".toList rest).map fun r => (.bool false, r)
      else do
        let (n, r) ← readNumber (c :: rest)
        some (.num (String.ofList n), r)

/-- Items up to and with the closing bracket. -/
def readItems : Nat → List Char → Option (List (Json String) × List Char)
  | 0, _ => none
  | fuel + 1, cs => do
      let (v, r) ← readValue fuel cs
      if (skip r).head? = some ']' then some ([v], (skip r).tail)
      else if (skip r).head? = some ',' then do
        let (vs, r') ← readItems fuel (skip (skip r).tail)
        some (v :: vs, r')
      else none

/-- Members up to and with the closing brace. -/
def readFields : Nat → List Char → Option (List (String × Json String) × List Char)
  | 0, _ => none
  | _ + 1, [] => none
  | fuel + 1, c :: cs =>
      if c = '"' then do
        let (ps, r) ← readPieces fuel cs
        let k := String.ofList (unquote ps)
        if (skip r).head? = some ':' then do
          let (v, r) ← readValue fuel (skip (skip r).tail)
          if (skip r).head? = some '}' then some ([(k, v)], (skip r).tail)
          else if (skip r).head? = some ',' then do
            let (kvs, r') ← readFields fuel (skip (skip r).tail)
            some ((k, v) :: kvs, r')
          else none
        else none
      else none

end

/-! ## The reader takes texts of the grammar -/

/-- A word is read where it stands. -/
theorem word?_sound {w cs rest : List Char} (h : word? w cs = some rest) : cs = w ++ rest := by
  unfold word? at h
  split at h
  · next hprefix =>
      obtain ⟨tail, rfl⟩ := List.isPrefixOf_iff_prefix.mp hprefix
      obtain rfl : tail = rest := by simpa using h
      rfl
  · exact nomatch h

/-- A token that is found behind blanks stands there. -/
theorem eq_of_head_skip {cs : List Char} {c : Char} (h : (skip cs).head? = some c) :
    ∃ a, Blank a ∧ cs = a ++ c :: (skip cs).tail := by
  obtain ⟨a, ha, hcs⟩ := exists_blank_append_skip cs
  refine ⟨a, ha, ?_⟩
  cases hskip : skip cs with
  | nil => simp [hskip] at h
  | cons d rest =>
      obtain rfl : d = c := by simpa [hskip] using h
      rw [hskip] at hcs
      exact hcs

/-- Blanks in front belong to the first item. -/
theorem ItemsText.blank {vs : List (Json String)} {body a : List Char} (ha : Blank a)
    (h : ItemsText vs body) : ItemsText vs (a ++ body) := by
  match vs with
  | [] => exact ha.append h
  | [v] =>
      obtain ⟨a', t, b, ha', ht, hb, rfl⟩ := h
      exact ⟨a ++ a', t, b, ha.append ha', ht, hb, by rw [List.append_assoc]⟩
  | v :: w :: rest =>
      obtain ⟨a', t, b, body', ha', ht, hb, hrest, rfl⟩ := h
      exact ⟨a ++ a', t, b, body', ha.append ha', ht, hb, hrest, by rw [List.append_assoc]⟩

/-- Blanks may stand before the fields of an object. -/
theorem FieldsText.blank {kvs : List (String × Json String)} {body a : List Char} (ha : Blank a)
    (h : FieldsText kvs body) : FieldsText kvs (a ++ body) := by
  match kvs with
  | [] => exact ha.append h
  | [(k, v)] =>
      obtain ⟨a', kt, b, c, t, d, ha', hk, hb, hc, ht, hd, rfl⟩ := h
      exact ⟨a ++ a', kt, b, c, t, d, ha.append ha', hk, hb, hc, ht, hd, by rw [List.append_assoc]⟩
  | (k, v) :: w :: rest =>
      obtain ⟨a', kt, b, c, t, d, body', ha', hk, hb, hc, ht, hd, hrest, rfl⟩ := h
      exact ⟨a ++ a', kt, b, c, t, d, body', ha.append ha', hk, hb, hc, ht, hd, hrest, by
        rw [List.append_assoc]⟩

/-- What the three readers take is in the grammar, whatever the fuel. -/
def SoundAt (fuel : Nat) : Prop :=
  (∀ cs v rest, readValue fuel cs = some (v, rest) → ∃ t, Text v t ∧ cs = t ++ rest) ∧
    (∀ cs vs rest, readItems fuel cs = some (vs, rest) →
      vs ≠ [] ∧ ∃ body, ItemsText vs body ∧ cs = body ++ ']' :: rest) ∧
    ∀ cs kvs rest, readFields fuel cs = some (kvs, rest) →
      kvs ≠ [] ∧ ∃ body, FieldsText kvs body ∧ cs = body ++ '}' :: rest

/-- What is read as a value is a text of it, if the shorter ones are. -/
private theorem readValue_sound_step {fuel : Nat} (ih : SoundAt fuel) {cs rest : List Char}
    {v : Json String} (h : readValue (fuel + 1) cs = some (v, rest)) :
    ∃ t, Text v t ∧ cs = t ++ rest := by
  obtain ⟨-, ihItems, ihFields⟩ := ih
  cases cs with
  | nil => simp [readValue] at h
  | cons c cs =>
      rw [readValue] at h
      split_ifs at h with hquote hbracket hclosed hbrace hclosed hnull htrue hfalse
      · subst hquote
        simp only [Option.bind_eq_bind, Option.bind_eq_some_iff, Option.some.injEq,
          Prod.mk.injEq] at h
        obtain ⟨⟨ps, r⟩, hps, rfl, rfl⟩ := h
        obtain ⟨w, hw, rfl⟩ := readPieces_sound hps
        exact ⟨_, ⟨ps, w, hw, rfl, rfl⟩, by simp⟩
      · subst hbracket
        obtain ⟨rfl, rfl⟩ := Prod.mk.inj (Option.some.inj h)
        obtain ⟨a, ha, hcs⟩ := eq_of_head_skip hclosed
        refine ⟨_, ⟨a, rfl, ha⟩, ?_⟩
        rw [hcs, skip_append ha, skip_cons (by decide)]
        simp
      · subst hbracket
        simp only [Option.bind_eq_bind, Option.bind_eq_some_iff, Option.some.injEq,
          Prod.mk.injEq] at h
        obtain ⟨⟨vs, r⟩, hvs, rfl, rfl⟩ := h
        obtain ⟨-, body, hbody, hskip⟩ := ihItems _ _ _ hvs
        obtain ⟨a, ha, hcs⟩ := exists_blank_append_skip cs
        refine ⟨_, ⟨a ++ body, rfl, hbody.blank ha⟩, ?_⟩
        rw [hcs, hskip]
        simp
      · subst hbrace
        obtain ⟨rfl, rfl⟩ := Prod.mk.inj (Option.some.inj h)
        obtain ⟨a, ha, hcs⟩ := eq_of_head_skip hclosed
        refine ⟨_, ⟨a, rfl, ha⟩, ?_⟩
        rw [hcs, skip_append ha, skip_cons (by decide)]
        simp
      · subst hbrace
        simp only [Option.bind_eq_bind, Option.bind_eq_some_iff, Option.some.injEq,
          Prod.mk.injEq] at h
        obtain ⟨⟨kvs, r⟩, hkvs, rfl, rfl⟩ := h
        obtain ⟨-, body, hbody, hskip⟩ := ihFields _ _ _ hkvs
        obtain ⟨a, ha, hcs⟩ := exists_blank_append_skip cs
        refine ⟨_, ⟨a ++ body, rfl, hbody.blank ha⟩, ?_⟩
        rw [hcs, hskip]
        simp
      · subst hnull
        obtain ⟨r, hr, heq⟩ := Option.map_eq_some_iff.mp h
        obtain ⟨rfl, rfl⟩ := Prod.mk.inj heq
        exact ⟨_, rfl, by rw [word?_sound hr]; rfl⟩
      · subst htrue
        obtain ⟨r, hr, heq⟩ := Option.map_eq_some_iff.mp h
        obtain ⟨rfl, rfl⟩ := Prod.mk.inj heq
        exact ⟨_, rfl, by rw [word?_sound hr]; rfl⟩
      · subst hfalse
        obtain ⟨r, hr, heq⟩ := Option.map_eq_some_iff.mp h
        obtain ⟨rfl, rfl⟩ := Prod.mk.inj heq
        exact ⟨_, rfl, by rw [word?_sound hr]; rfl⟩
      · simp only [Option.bind_eq_bind, Option.bind_eq_some_iff, Option.some.injEq,
          Prod.mk.injEq] at h
        obtain ⟨⟨n, r⟩, hn, rfl, rfl⟩ := h
        obtain ⟨hnumber, hcs⟩ := readNumber_sound hn
        exact ⟨n, ⟨String.toList_ofList.symm, hnumber⟩, hcs⟩

/-- Items that were read are an array's text up to its bracket, if values are. -/
private theorem readItems_sound_step {fuel : Nat} (ih : SoundAt fuel) {cs rest : List Char}
    {vs : List (Json String)} (h : readItems (fuel + 1) cs = some (vs, rest)) :
    vs ≠ [] ∧ ∃ body, ItemsText vs body ∧ cs = body ++ ']' :: rest := by
  obtain ⟨ihValue, ihItems, -⟩ := ih
  rw [readItems] at h
  simp only [Option.bind_eq_bind, Option.bind_eq_some_iff] at h
  obtain ⟨⟨v, r⟩, hv, h⟩ := h
  obtain ⟨t, ht, rfl⟩ := ihValue _ _ _ hv
  dsimp only at h
  split_ifs at h with hclose hcomma
  · obtain ⟨rfl, rfl⟩ := Prod.mk.inj (Option.some.inj h)
    obtain ⟨b, hb, hr⟩ := eq_of_head_skip hclose
    refine ⟨by simp, _, ⟨[], t, b, blank_nil, ht, hb, rfl⟩, ?_⟩
    rw [hr, skip_append hb, skip_cons (by decide)]
    simp
  · simp only [Option.bind_eq_some_iff, Option.some.injEq, Prod.mk.injEq] at h
    obtain ⟨⟨ws, r'⟩, hws, rfl, rfl⟩ := h
    obtain ⟨hne, body, hbody, hskip⟩ := ihItems _ _ _ hws
    obtain ⟨b, hb, hr⟩ := eq_of_head_skip hcomma
    obtain ⟨c, hc, htail⟩ := exists_blank_append_skip (skip r).tail
    obtain ⟨w, ws', rfl⟩ := List.exists_cons_of_ne_nil hne
    refine ⟨by simp, _, ⟨[], t, b, c ++ body, blank_nil, ht, hb, hbody.blank hc, rfl⟩, ?_⟩
    rw [hr, htail, hskip]
    simp

/-- Fields that were read are an object's text up to its brace, if values are. -/
private theorem readFields_sound_step {fuel : Nat} (ih : SoundAt fuel) {cs rest : List Char}
    {kvs : List (String × Json String)} (h : readFields (fuel + 1) cs = some (kvs, rest)) :
    kvs ≠ [] ∧ ∃ body, FieldsText kvs body ∧ cs = body ++ '}' :: rest := by
  obtain ⟨ihValue, -, ihFields⟩ := ih
  cases cs with
  | nil => simp [readFields] at h
  | cons q cs =>
      rw [readFields] at h
      split_ifs at h with hquote
      subst hquote
      simp only [Option.bind_eq_bind, Option.bind_eq_some_iff] at h
      obtain ⟨⟨ps, r⟩, hps, h⟩ := h
      obtain ⟨w, hw, rfl⟩ := readPieces_sound hps
      have hkey : StringText (String.ofList (unquote ps)) ('"' :: w ++ ['"']) :=
        ⟨ps, w, hw, rfl, rfl⟩
      dsimp only at h
      split_ifs at h with hcolon
      simp only [Option.bind_eq_some_iff] at h
      obtain ⟨⟨v, r'⟩, hv, h⟩ := h
      obtain ⟨t, ht, hvalue⟩ := ihValue _ _ _ hv
      obtain ⟨b, hb, hr⟩ := eq_of_head_skip hcolon
      obtain ⟨c, hc, htail⟩ := exists_blank_append_skip (skip r).tail
      dsimp only at h
      split_ifs at h with hclose hcomma
      · obtain ⟨rfl, rfl⟩ := Prod.mk.inj (Option.some.inj h)
        obtain ⟨d, hd, hr'⟩ := eq_of_head_skip hclose
        refine ⟨by simp, _, ⟨[], _, b, c, t, d, blank_nil, hkey, hb, hc, ht, hd, rfl⟩, ?_⟩
        rw [hr, htail, hvalue, hr', skip_append hd, skip_cons (by decide)]
        simp
      · simp only [Option.bind_eq_some_iff, Option.some.injEq, Prod.mk.injEq] at h
        obtain ⟨⟨kvs', r''⟩, hkvs, rfl, rfl⟩ := h
        obtain ⟨hne, body, hbody, hskip⟩ := ihFields _ _ _ hkvs
        obtain ⟨d, hd, hr'⟩ := eq_of_head_skip hcomma
        obtain ⟨e, he, htail'⟩ := exists_blank_append_skip (skip r').tail
        obtain ⟨kv, kvs'', rfl⟩ := List.exists_cons_of_ne_nil hne
        refine ⟨by simp, _, ⟨[], _, b, c, t, d, e ++ body, blank_nil, hkey, hb, hc, ht, hd,
          hbody.blank he, rfl⟩, ?_⟩
        rw [hr, htail, hvalue, hr', htail', hskip]
        simp

/-- What is read is a text of the value, however long. -/
theorem soundAt (fuel : Nat) : SoundAt fuel := by
  induction fuel with
  | zero =>
      refine ⟨?_, ?_, ?_⟩
      · intro cs v rest h
        simp [readValue] at h
      · intro cs vs rest h
        simp [readItems] at h
      · intro cs kvs rest h
        simp [readFields] at h
  | succ fuel ih =>
      exact ⟨fun _ _ _ => readValue_sound_step ih, fun _ _ _ => readItems_sound_step ih,
        fun _ _ _ => readFields_sound_step ih⟩

/-- What the reader takes off a text is a text of the value it returns. -/
theorem readValue_sound {fuel : Nat} {cs rest : List Char} {v : Json String}
    (h : readValue fuel cs = some (v, rest)) : ∃ t, Text v t ∧ cs = t ++ rest :=
  (soundAt fuel).1 cs v rest h

/-! ## The reader takes all of them -/

/-- A value starts with a character that is no blank and closes nothing. -/
theorem Text.head {v : Json String} {t : List Char} (h : Text v t) :
    ∃ c tail, t = c :: tail ∧ isBlank c = false ∧ c ≠ ']' ∧ c ≠ '}' := by
  match v with
  | .null => exact ⟨'n', _, h, by decide⟩
  | .bool true => exact ⟨'t', _, h, by decide⟩
  | .bool false => exact ⟨'f', _, h, by decide⟩
  | .num n =>
      obtain ⟨c, tail, rfl, hc⟩ := h.2.head
      refine ⟨c, tail, rfl, ?_⟩
      rcases hc with hdigit | rfl
      · refine ⟨?_, ?_, ?_⟩
        · by_contra hblank
          rcases isBlank_iff.mp (by simpa using hblank) with rfl | rfl | rfl | rfl <;>
            exact absurd hdigit (by decide)
        · rintro rfl
          exact absurd hdigit (by decide)
        · rintro rfl
          exact absurd hdigit (by decide)
      · decide
  | .str s =>
      obtain ⟨ps, w, -, rfl, -⟩ := h
      exact ⟨'"', _, rfl, by decide⟩
  | .arr items =>
      obtain ⟨body, rfl, -⟩ := h
      exact ⟨'[', _, rfl, by decide⟩
  | .obj fields =>
      obtain ⟨body, rfl, -⟩ := h
      exact ⟨'{', _, rfl, by decide⟩

/-- Blanks before a value are skipped, and the value is not. -/
theorem skip_text {v : Json String} {a t : List Char} (ha : Blank a) (h : Text v t)
    (rest : List Char) : skip (a ++ (t ++ rest)) = t ++ rest := by
  obtain ⟨c, tail, rfl, hc, -, -⟩ := h.head
  rw [skip_append ha, List.cons_append, skip_cons hc]

/-- A token behind blanks is found. -/
theorem skip_token {a : List Char} (ha : Blank a) {c : Char} (hc : isBlank c = false)
    (rest : List Char) : skip (a ++ c :: rest) = c :: rest := by
  rw [skip_append ha, skip_cons hc]

/-- Blanks and the tokens between values do not carry on a number. -/
theorem follows_blank_append {a : List Char} (ha : Blank a) {c : Char}
    (hc : c = ',' ∨ c = ']' ∨ c = '}') (rest : List Char) : Follows (a ++ c :: rest) := by
  intro d hd
  cases a with
  | nil =>
      obtain rfl : c = d := by simpa using hd
      rcases hc with rfl | rfl | rfl <;> decide
  | cons b a =>
      obtain rfl : b = d := by simpa using hd
      rcases isBlank_iff.mp (ha b List.mem_cons_self) with rfl | rfl | rfl | rfl <;> decide

theorem follows_blank {a : List Char} (ha : Blank a) : Follows a := by
  intro d hd
  rcases isBlank_iff.mp (ha d (List.mem_of_mem_head? hd)) with rfl | rfl | rfl | rfl <;> decide

/-- The first item of an array stands behind blanks. -/
theorem ItemsText.first {v : Json String} {vs : List (Json String)} {body : List Char}
    (h : ItemsText (v :: vs) body) :
    ∃ a t tail, Blank a ∧ Text v t ∧ body = a ++ (t ++ tail) := by
  cases vs with
  | nil =>
      obtain ⟨a, t, b, ha, ht, -, rfl⟩ := h
      exact ⟨a, t, b, ha, ht, rfl⟩
  | cons w rest =>
      obtain ⟨a, t, b, body', ha, ht, -, -, rfl⟩ := h
      exact ⟨a, t, _, ha, ht, rfl⟩

/-- The first field of an object begins with its key, behind blanks. -/
theorem FieldsText.first {k : String} {v : Json String} {kvs : List (String × Json String)}
    {body : List Char} (h : FieldsText ((k, v) :: kvs) body) :
    ∃ a kt tail, Blank a ∧ StringText k kt ∧ body = a ++ (kt ++ tail) := by
  cases kvs with
  | nil =>
      obtain ⟨a, kt, b, c, t, d, ha, hk, -, -, -, -, rfl⟩ := h
      exact ⟨a, kt, _, ha, hk, rfl⟩
  | cons w rest =>
      obtain ⟨a, kt, b, c, t, d, body', ha, hk, -, -, -, -, -, rfl⟩ := h
      exact ⟨a, kt, _, ha, hk, rfl⟩

/-- With fuel for its length, every text of the grammar is read. -/
def CompleteAt (fuel : Nat) : Prop :=
  (∀ v t rest, Text v t → Follows rest → t.length < fuel →
      readValue fuel (t ++ rest) = some (v, rest)) ∧
    (∀ vs body rest, vs ≠ [] → ItemsText vs body → body.length + 1 < fuel →
      readItems fuel (skip (body ++ ']' :: rest)) = some (vs, rest)) ∧
    ∀ kvs body rest, kvs ≠ [] → FieldsText kvs body → body.length + 1 < fuel →
      readFields fuel (skip (body ++ '}' :: rest)) = some (kvs, rest)

/-- An array is read from its text, if shorter texts are. -/
private theorem readArr_text {fuel : Nat} (ih : CompleteAt fuel) {vs : List (Json String)}
    {body rest : List Char} (h : ItemsText vs body) (hfuel : body.length + 1 < fuel) :
    readValue (fuel + 1) ('[' :: body ++ [']'] ++ rest) = some (.arr vs, rest) := by
  have hshape : '[' :: body ++ [']'] ++ rest = '[' :: (body ++ ']' :: rest) := by simp
  rw [hshape, readValue, if_neg (by decide), if_pos rfl]
  cases vs with
  | nil =>
      have hskip : skip (body ++ ']' :: rest) = ']' :: rest := skip_token h (by decide) rest
      rw [hskip, if_pos List.head?_cons]
      rfl
  | cons v vs =>
      obtain ⟨a, t, tail, ha, ht, hbody⟩ := h.first
      obtain ⟨c, t', rfl, -, hc, -⟩ := ht.head
      have hhead : (skip (body ++ ']' :: rest)).head? ≠ some ']' := by
        rw [hbody, List.append_assoc, List.append_assoc, skip_text ha ht]
        simpa using hc
      rw [if_neg hhead, ih.2.1 _ _ rest (by simp) h hfuel]
      rfl

/-- The text of an object is read as the object, if shorter texts are. -/
private theorem readObj_text {fuel : Nat} (ih : CompleteAt fuel)
    {kvs : List (String × Json String)} {body rest : List Char} (h : FieldsText kvs body)
    (hfuel : body.length + 1 < fuel) :
    readValue (fuel + 1) ('{' :: body ++ ['}'] ++ rest) = some (.obj kvs, rest) := by
  have hshape : '{' :: body ++ ['}'] ++ rest = '{' :: (body ++ '}' :: rest) := by simp
  rw [hshape, readValue, if_neg (by decide), if_neg (by decide), if_pos rfl]
  cases kvs with
  | nil =>
      have hskip : skip (body ++ '}' :: rest) = '}' :: rest := skip_token h (by decide) rest
      rw [hskip, if_pos List.head?_cons]
      rfl
  | cons kv kvs =>
      obtain ⟨a, kt, tail, ha, hk, hbody⟩ := h.first
      obtain ⟨ps, w, -, rfl, -⟩ := hk
      have hhead : (skip (body ++ '}' :: rest)).head? ≠ some '}' := by
        rw [hbody, List.append_assoc, List.append_assoc, List.cons_append, List.cons_append,
          skip_token ha (by decide)]
        simp
      rw [if_neg hhead, ih.2.2 _ _ rest (by simp) h hfuel]
      rfl

/-- A number is read wherever nothing goes on with it. -/
private theorem readNum_text {fuel : Nat} {t rest : List Char} (h : IsNumber t)
    (hrest : Follows rest) :
    readValue (fuel + 1) (t ++ rest) = some (.num (String.ofList t), rest) := by
  have hread := readNumber_text h hrest
  obtain ⟨c, tail, rfl, hc⟩ := h.head
  have hne : ∀ d, d = '"' ∨ d = '[' ∨ d = '{' ∨ d = 'n' ∨ d = 't' ∨ d = 'f' → c ≠ d := by
    rintro d hd rfl
    rcases hd with rfl | rfl | rfl | rfl | rfl | rfl <;> exact absurd hc (by decide)
  rw [List.cons_append] at hread ⊢
  rw [readValue, if_neg (hne '"' (by simp)), if_neg (hne '[' (by simp)),
    if_neg (hne '{' (by simp)), if_neg (hne 'n' (by simp)), if_neg (hne 't' (by simp)),
    if_neg (hne 'f' (by simp)), hread]
  rfl

/-- Any value is read from its text, if shorter texts are. -/
private theorem readValue_text_step {fuel : Nat} (ih : CompleteAt fuel) {v : Json String}
    {t rest : List Char} (h : Text v t) (hrest : Follows rest) (hfuel : t.length < fuel + 1) :
    readValue (fuel + 1) (t ++ rest) = some (v, rest) := by
  match v with
  | .null =>
      obtain rfl : t = "null".toList := h
      simp [readValue, word?]
  | .bool true =>
      obtain rfl : t = "true".toList := h
      simp [readValue, word?]
  | .bool false =>
      obtain rfl : t = "false".toList := h
      simp [readValue, word?]
  | .num n =>
      obtain ⟨rfl, hnumber⟩ := h
      rw [readNum_text hnumber hrest, String.ofList_toList]
  | .str s =>
      obtain ⟨ps, w, hw, rfl, rfl⟩ := h
      have hlen : w.length < fuel := by
        simp only [List.length_append, List.length_cons] at hfuel
        omega
      simp [readValue, readPieces_text hw rest hlen]
  | .arr items =>
      obtain ⟨body, rfl, hbody⟩ := h
      refine readArr_text ih hbody ?_
      simp only [List.length_append, List.length_cons] at hfuel
      simpa using hfuel
  | .obj fields =>
      obtain ⟨body, rfl, hbody⟩ := h
      refine readObj_text ih hbody ?_
      simp only [List.length_append, List.length_cons] at hfuel
      simpa using hfuel

/-- The text of an array's items is read as the items, if shorter texts are. -/
private theorem readItems_text_step {fuel : Nat} (ih : CompleteAt fuel) {vs : List (Json String)}
    {body rest : List Char} (hne : vs ≠ []) (h : ItemsText vs body)
    (hfuel : body.length + 1 < fuel + 1) :
    readItems (fuel + 1) (skip (body ++ ']' :: rest)) = some (vs, rest) := by
  match vs with
  | [] => exact absurd rfl hne
  | [v] =>
      obtain ⟨a, t, b, ha, ht, hb, rfl⟩ := h
      have hlen : t.length < fuel := by
        simp only [List.length_append] at hfuel
        omega
      have hread := ih.1 v t (b ++ ']' :: rest) ht
        (follows_blank_append hb (Or.inr (Or.inl rfl)) rest) hlen
      have hskip : skip (b ++ ']' :: rest) = ']' :: rest := skip_token hb (by decide) rest
      rw [List.append_assoc, List.append_assoc, skip_text ha ht, readItems, hread]
      simp [hskip]
  | v :: w :: ws =>
      obtain ⟨a, t, b, body', ha, ht, hb, hbody, rfl⟩ := h
      have hlen : t.length < fuel ∧ body'.length + 1 < fuel := by
        obtain ⟨c, tail, rfl, -⟩ := ht.head
        simp only [List.length_append, List.length_cons] at hfuel ⊢
        omega
      have hread := ih.1 v t (b ++ ',' :: (body' ++ ']' :: rest)) ht
        (follows_blank_append hb (Or.inl rfl) _) hlen.1
      have hskip : skip (b ++ ',' :: (body' ++ ']' :: rest)) = ',' :: (body' ++ ']' :: rest) :=
        skip_token hb (by decide) _
      have hitems := ih.2.1 (w :: ws) body' rest (by simp) hbody hlen.2
      have hshape : a ++ (t ++ (b ++ ',' :: body')) ++ ']' :: rest =
          a ++ (t ++ (b ++ ',' :: (body' ++ ']' :: rest))) := by simp
      rw [hshape, skip_text ha ht, readItems, hread]
      simp [hskip, hitems]

/-- The text of an object's fields is read as the fields, if shorter texts are. -/
private theorem readFields_text_step {fuel : Nat} (ih : CompleteAt fuel)
    {kvs : List (String × Json String)} {body rest : List Char} (hne : kvs ≠ [])
    (h : FieldsText kvs body) (hfuel : body.length + 1 < fuel + 1) :
    readFields (fuel + 1) (skip (body ++ '}' :: rest)) = some (kvs, rest) := by
  match kvs with
  | [] => exact absurd rfl hne
  | [(k, v)] =>
      obtain ⟨a, kt, b, c, t, d, ha, ⟨ps, w, hw, rfl, rfl⟩, hb, hc, ht, hd, rfl⟩ := h
      have hlen : w.length < fuel ∧ t.length < fuel := by
        simp only [List.length_append, List.length_cons] at hfuel
        omega
      have hread := ih.1 v t (d ++ '}' :: rest) ht
        (follows_blank_append hd (Or.inr (Or.inr rfl)) rest) hlen.2
      have hshape : a ++ ('"' :: w ++ ['"'] ++ (b ++ ':' :: (c ++ (t ++ d)))) ++ '}' :: rest =
          a ++ '"' :: (w ++ '"' :: (b ++ ':' :: (c ++ (t ++ (d ++ '}' :: rest))))) := by simp
      have hcolon : skip (b ++ ':' :: (c ++ (t ++ (d ++ '}' :: rest)))) =
          ':' :: (c ++ (t ++ (d ++ '}' :: rest))) := skip_token hb (by decide) _
      have hskip : skip (d ++ '}' :: rest) = '}' :: rest := skip_token hd (by decide) rest
      rw [hshape, skip_token ha (by decide), readFields, if_pos rfl,
        readPieces_text hw _ hlen.1]
      simp [hcolon, skip_text hc ht, hread, hskip]
  | (k, v) :: kv :: kvs =>
      obtain ⟨a, kt, b, c, t, d, body', ha, ⟨ps, w, hw, rfl, rfl⟩, hb, hc, ht, hd, hbody, rfl⟩ := h
      have hlen : w.length < fuel ∧ t.length < fuel ∧ body'.length + 1 < fuel := by
        simp only [List.length_append, List.length_cons] at hfuel
        omega
      have hread := ih.1 v t (d ++ ',' :: (body' ++ '}' :: rest)) ht
        (follows_blank_append hd (Or.inl rfl) _) hlen.2.1
      have hfields := ih.2.2 (kv :: kvs) body' rest (by simp) hbody hlen.2.2
      have hshape : a ++ ('"' :: w ++ ['"'] ++ (b ++ ':' :: (c ++ (t ++ (d ++ ',' :: body'))))) ++
          '}' :: rest = a ++ '"' :: (w ++ '"' :: (b ++ ':' :: (c ++ (t ++ (d ++ ',' ::
            (body' ++ '}' :: rest)))))) := by simp
      have hcolon : skip (b ++ ':' :: (c ++ (t ++ (d ++ ',' :: (body' ++ '}' :: rest))))) =
          ':' :: (c ++ (t ++ (d ++ ',' :: (body' ++ '}' :: rest)))) := skip_token hb (by decide) _
      have hskip : skip (d ++ ',' :: (body' ++ '}' :: rest)) = ',' :: (body' ++ '}' :: rest) :=
        skip_token hd (by decide) _
      rw [hshape, skip_token ha (by decide), readFields, if_pos rfl,
        readPieces_text hw _ hlen.1]
      simp [hcolon, skip_text hc ht, hread, hskip, hfields]

/-- Every text of a value is read as that value. -/
theorem completeAt (fuel : Nat) : CompleteAt fuel := by
  induction fuel with
  | zero =>
      refine ⟨?_, ?_, ?_⟩
      · intro v t rest _ _ hfuel
        omega
      · intro vs body rest _ _ hfuel
        omega
      · intro kvs body rest _ _ hfuel
        omega
  | succ fuel ih =>
      exact ⟨fun _ _ _ => readValue_text_step ih, fun _ _ _ => readItems_text_step ih,
        fun _ _ _ => readFields_text_step ih⟩

/-- A text of the grammar is read back as the value it writes, whatever follows that
does not carry on a number. -/
theorem readValue_text {v : Json String} {t rest : List Char} (h : Text v t)
    (hrest : Follows rest) {fuel : Nat} (hfuel : t.length < fuel) :
    readValue fuel (t ++ rest) = some (v, rest) :=
  (completeAt fuel).1 v t rest h hrest hfuel

/-- A text writes one value. -/
theorem Text.unique {v w : Json String} {t : List Char} (hv : Text v t) (hw : Text w t) :
    v = w := by
  have hfollows : Follows [] := fun c hc => nomatch hc
  have hread := readValue_text hv hfollows (Nat.lt_succ_self t.length)
  rw [readValue_text hw hfollows (Nat.lt_succ_self t.length)] at hread
  exact (Prod.mk.inj (Option.some.inj hread)).1.symm

end JsonText
