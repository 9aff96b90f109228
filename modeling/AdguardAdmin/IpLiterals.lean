import Mathlib.Data.List.Basic
import Mathlib.Data.List.TakeWhile
import Mathlib.Data.Fin.Basic
/-!
# Address literals

The textual forms of IPv4 and IPv6 addresses, as the parsers of two standard
libraries read them: four decimal octets without leading zeros, and colon
separated 16-bit groups with at most one `::` and an optional IPv4 tail.  Printing
follows the canonical form (lower case, the leftmost longest run of at least two
zero groups compressed).

The main results are the round trips `parseIpv4_format` and `parseIpv6_format`:
every address is read back from its printed form.
-/

namespace IpLiterals

/-- Four octets. -/
structure Ipv4 where
  a : Fin 256
  b : Fin 256
  c : Fin 256
  d : Fin 256
  deriving DecidableEq, Repr

/-- Eight 16-bit groups. -/
structure Ipv6 where
  groups : List (Fin 65536)
  length_eq : groups.length = 8
  deriving DecidableEq, Repr

/-- An address of either family. -/
inductive Ip where
  | v4 (a : Ipv4)
  | v6 (a : Ipv6)
  deriving DecidableEq, Repr

/-! ## Numbers in a base -/

/-- The value of a hexadecimal digit, of either case. -/
def hexDigit? (c : Char) : Option Nat :=
  if '0' ≤ c ∧ c ≤ '9' then some (c.toNat - '0'.toNat)
  else if 'a' ≤ c ∧ c ≤ 'f' then some (c.toNat - 'a'.toNat + 10)
  else if 'A' ≤ c ∧ c ≤ 'F' then some (c.toNat - 'A'.toNat + 10)
  else none

/-- The value of a decimal digit. -/
def decDigit? (c : Char) : Option Nat :=
  if '0' ≤ c ∧ c ≤ '9' then some (c.toNat - '0'.toNat) else none

/-- The number a text writes in a base, most significant digit first. -/
def number? (digit? : Char → Option Nat) (base : Nat) (cs : List Char) : Option Nat :=
  (cs.mapM digit?).map (·.foldl (fun acc d => base * acc + d) 0)

/-- A decimal number without a sign; leading zeros are allowed. -/
def decimal? (cs : List Char) : Option Nat :=
  if cs = [] then none else number? decDigit? 10 cs

/-- One octet: one to three digits, no leading zero, at most 255. -/
def octet? (cs : List Char) : Option (Fin 256) := do
  let n ← if cs.length ≤ 3 ∧ (cs.head? ≠ some '0' ∨ cs = ['0']) then decimal? cs else none
  if h : n < 256 then some ⟨n, h⟩ else none

/-- The lower 16 bits of a number. -/
abbrev low16 (n : Nat) : Fin 65536 := Fin.ofNat 65536 n

/-- One 16-bit group: one to four hexadecimal digits. -/
def hextet? (cs : List Char) : Option (Fin 65536) :=
  if cs ≠ [] ∧ cs.length ≤ 4 then (number? hexDigit? 16 cs).map (Fin.ofNat 65536) else none

/-- Every digit of a base is read back. -/
def ReadsDigits (digit? : Char → Option Nat) (base : Nat) : Prop :=
  ∀ d < base, digit? d.digitChar = some d

theorem readsDigits_dec : ReadsDigits decDigit? 10 := by unfold ReadsDigits; decide

theorem readsDigits_hex : ReadsDigits hexDigit? 16 := by unfold ReadsDigits; decide

/-- **Numbers are read back** from their digits in any base. -/
theorem number?_toDigits {digit? : Char → Option Nat} {base : Nat} (hbase : 1 < base)
    (hread : ReadsDigits digit? base) (n : Nat) :
    number? digit? base (Nat.toDigits base n) = some n := by
  induction n using Nat.strongRecOn with
  | ind n ih =>
      by_cases hlt : n < base
      · rw [Nat.toDigits_of_lt_base hlt]
        simp [number?, hread n hlt]
      · have hdiv : n / base < n := Nat.div_lt_self (by omega) hbase
        have hmod : n % base < base := Nat.mod_lt n (by omega)
        have hhead := ih (n / base) hdiv
        rw [Nat.toDigits_of_base_le hbase (by omega)]
        unfold number? at hhead ⊢
        obtain ⟨ds, hds, hval⟩ := Option.map_eq_some_iff.mp hhead
        simp only [List.mapM_append, hds, List.mapM_cons, hread _ hmod, List.mapM_nil]
        simp [List.foldl_append, hval, Nat.div_add_mod]

/-- What is printed of a number is made of digits. -/
theorem exists_digit_of_mem_toDigits {base n : Nat} (hbase : 1 < base) {c : Char}
    (hc : c ∈ Nat.toDigits base n) : ∃ d < base, c = d.digitChar := by
  induction n using Nat.strongRecOn with
  | ind n ih =>
      by_cases hlt : n < base
      · rw [Nat.toDigits_of_lt_base hlt] at hc
        exact ⟨n, hlt, by simpa using hc⟩
      · rw [Nat.toDigits_of_base_le hbase (by omega)] at hc
        rcases List.mem_append.mp hc with hc | hc
        · exact ih (n / base) (Nat.div_lt_self (by omega) hbase) hc
        · exact ⟨n % base, Nat.mod_lt n (by omega), by simpa using hc⟩

/-! ## Parsing -/

/-- Four octets separated by dots. -/
def parseIpv4 (cs : List Char) : Option Ipv4 :=
  match cs.splitOn '.' with
  | [a, b, c, d] => do some ⟨← octet? a, ← octet? b, ← octet? c, ← octet? d⟩
  | _ => none

/-- The two groups an embedded IPv4 address fills. -/
def Ipv4.groups (x : Ipv4) : List (Fin 65536) :=
  [Fin.ofNat 65536 (x.a.val * 256 + x.b.val), Fin.ofNat 65536 (x.c.val * 256 + x.d.val)]

/-- The groups of colon separated fields, the last of which may be an IPv4 address. -/
def fieldGroups? : List (List Char) → Option (List (Fin 65536))
  | [] => some []
  | [field] =>
      if '.' ∈ field then (parseIpv4 field).map Ipv4.groups else (hextet? field).map ([·])
  | field :: rest => do some ((← hextet? field) :: (← fieldGroups? rest))

/-- The text before and after the first `::`. -/
def cutDoubleColon? : List Char → Option (List Char × List Char)
  | ':' :: ':' :: rest => some ([], rest)
  | c :: rest => (cutDoubleColon? rest).map fun p => (c :: p.1, p.2)
  | [] => none

/-- The colon separated fields of one side of `::`, which may be empty. -/
def sideFields (cs : List Char) : List (List Char) :=
  if cs = [] then [] else cs.splitOn ':'

/-- Eight groups out of two sides with zeros between them; `::` stands for at
least one group. -/
def fillZeros? (left right : List (Fin 65536)) : Option Ipv6 :=
  if h : left.length + right.length ≤ 7 then
    some ⟨left ++ List.replicate (8 - (left.length + right.length)) 0 ++ right, by
      simp only [List.length_append, List.length_replicate]
      omega⟩
  else none

/-- An IPv6 address without a zone. -/
def parseIpv6 (cs : List Char) : Option Ipv6 :=
  match cutDoubleColon? cs with
  | none => do
      let gs ← fieldGroups? (cs.splitOn ':')
      if h : gs.length = 8 then some ⟨gs, h⟩ else none
  | some (left, right) => do
      fillZeros? (← (sideFields left).mapM hextet?) (← fieldGroups? (sideFields right))

/-! ## Printing -/

/-- An octet in decimal. -/
def octetChars (n : Fin 256) : List Char := Nat.toDigits 10 n.val

/-- A group in lower-case hexadecimal. -/
def hextetChars (n : Fin 65536) : List Char := Nat.toDigits 16 n.val

/-- Dotted decimal. -/
def Ipv4.format (x : Ipv4) : List Char :=
  ['.'].intercalate [octetChars x.a, octetChars x.b, octetChars x.c, octetChars x.d]

/-- Groups separated by colons. -/
def colonChars (gs : List (Fin 65536)) : List Char :=
  [':'].intercalate (gs.map hextetChars)

/-- How many zero groups start at index `i`. -/
def zeroRun (gs : List (Fin 65536)) (i : Nat) : Nat :=
  ((gs.drop i).takeWhile (· = 0)).length

/-- A longer run of at least two zero groups replaces the best one so far. -/
def betterRun (gs : List (Fin 65536)) (best : Option (Nat × Nat)) (i : Nat) : Option (Nat × Nat) :=
  if 2 ≤ zeroRun gs i ∧ (best.map Prod.snd).getD 0 < zeroRun gs i then some (i, zeroRun gs i)
  else best

/-- Start and length of the leftmost longest run of at least two zero groups. -/
def longestRun (gs : List (Fin 65536)) : Option (Nat × Nat) :=
  (List.range gs.length).foldl (betterRun gs) none

/-- The canonical form, without the dotted notation for mapped addresses. -/
def Ipv6.format (x : Ipv6) : List Char :=
  match longestRun x.groups with
  | none => colonChars x.groups
  | some (i, n) =>
      colonChars (x.groups.take i) ++ "::".toList ++ colonChars (x.groups.drop (i + n))

/-! ## Round trips -/

private theorem digitChar_ne_separator :
    ∀ d < 16, d.digitChar ≠ '.' ∧ d.digitChar ≠ ':' := by decide

/-- An octet has no dot. -/
theorem dot_not_mem_octetChars (n : Fin 256) : '.' ∉ octetChars n := by
  intro hmem
  obtain ⟨d, hd, heq⟩ := exists_digit_of_mem_toDigits (by decide) hmem
  exact (digitChar_ne_separator d (by omega)).1 heq.symm

/-- A hextet has no dot. -/
theorem dot_not_mem_hextetChars (n : Fin 65536) : '.' ∉ hextetChars n := by
  intro hmem
  obtain ⟨d, hd, heq⟩ := exists_digit_of_mem_toDigits (by decide) hmem
  exact (digitChar_ne_separator d hd).1 heq.symm

theorem colon_not_mem_hextetChars (n : Fin 65536) : ':' ∉ hextetChars n := by
  intro hmem
  obtain ⟨d, hd, heq⟩ := exists_digit_of_mem_toDigits (by decide) hmem
  exact (digitChar_ne_separator d hd).2 heq.symm

theorem octet?_octetChars : ∀ n : Fin 256, octet? (octetChars n) = some n := by
  decide +kernel

/-- **IPv4 round trip.**  Every address is read back from dotted decimal. -/
theorem parseIpv4_format (x : Ipv4) : parseIpv4 x.format = some x := by
  have hsplit : x.format.splitOn '.' =
      [octetChars x.a, octetChars x.b, octetChars x.c, octetChars x.d] :=
    List.splitOn_intercalate '.' (by simp [dot_not_mem_octetChars]) (by simp)
  unfold parseIpv4
  rw [hsplit]
  simp [octet?_octetChars]

/-- A hextet is not empty. -/
theorem hextetChars_ne_nil (n : Fin 65536) : hextetChars n ≠ [] :=
  Nat.toDigits_ne_nil

/-- A printed hextet is read back. -/
theorem hextet?_hextetChars (n : Fin 65536) : hextet? (hextetChars n) = some n := by
  have hlen : (hextetChars n).length ≤ 4 :=
    (Nat.length_toDigits_le_iff (by decide) (by decide)).mpr n.isLt
  have hnum : number? hexDigit? 16 (hextetChars n) = some n.val :=
    number?_toDigits (by decide) readsDigits_hex n.val
  unfold hextet?
  rw [if_pos ⟨hextetChars_ne_nil n, hlen⟩, hnum]
  simp

/-- A list of printed hextets is read back one by one. -/
theorem mapM_hextet?_hextetChars (gs : List (Fin 65536)) :
    (gs.map hextetChars).mapM hextet? = some gs := by
  induction gs with
  | nil => rfl
  | cons g gs ih => simp [List.mapM_cons, hextet?_hextetChars, ih]

/-- Printed hextets are read back as the groups of an address. -/
theorem fieldGroups?_hextetChars (gs : List (Fin 65536)) :
    fieldGroups? (gs.map hextetChars) = some gs := by
  induction gs with
  | nil => rfl
  | cons g gs ih =>
      cases gs with
      | nil => simp [fieldGroups?, dot_not_mem_hextetChars, hextet?_hextetChars]
      | cons g' gs =>
          rw [List.map_cons] at ih ⊢
          rw [List.map_cons, fieldGroups?, hextet?_hextetChars, ih]
          · rfl
          · simp

@[simp] theorem colonChars_nil : colonChars [] = [] := rfl

@[simp] theorem colonChars_singleton (g : Fin 65536) : colonChars [g] = hextetChars g := by
  simp [colonChars]

/-- Groups are separated by colons. -/
theorem colonChars_cons_cons (g g' : Fin 65536) (gs : List (Fin 65536)) :
    colonChars (g :: g' :: gs) = hextetChars g ++ ':' :: colonChars (g' :: gs) := by
  simp [colonChars]

/-- Hextets joined by colons are divided at the colons again. -/
theorem splitOn_colonChars {gs : List (Fin 65536)} (hne : gs ≠ []) :
    (colonChars gs).splitOn ':' = gs.map hextetChars :=
  List.splitOn_intercalate ':' (by simp [colon_not_mem_hextetChars]) (by simpa using hne)

/-- One side of a double colon, which may be empty, is divided into its hextets. -/
theorem sideFields_colonChars (gs : List (Fin 65536)) :
    sideFields (colonChars gs) = gs.map hextetChars := by
  unfold sideFields
  cases gs with
  | nil => rfl
  | cons g gs =>
      have hne : colonChars (g :: gs) ≠ [] := by
        cases gs with
        | nil => simpa using hextetChars_ne_nil g
        | cons g' gs => simp [colonChars_cons_cons]
      rw [if_neg hne, splitOn_colonChars (by simp)]

/-- Text without a colon is passed over when looking for `::`. -/
private theorem cutDoubleColon?_append {w : List Char} (hw : ':' ∉ w) (rest : List Char) :
    cutDoubleColon? (w ++ rest) = (cutDoubleColon? rest).map fun p => (w ++ p.1, p.2) := by
  induction w with
  | nil => simp
  | cons c w ih =>
      obtain ⟨hc, hw⟩ : ':' ≠ c ∧ ':' ∉ w := by simpa using hw
      have hstep : cutDoubleColon? (c :: (w ++ rest)) =
          (cutDoubleColon? (w ++ rest)).map fun p => (c :: p.1, p.2) := by
        rw [cutDoubleColon?]
        intro _ heq _
        exact absurd heq.symm hc
      rw [List.cons_append, hstep, ih hw, Option.map_map]
      rfl

/-- A single colon is not where the text is cut. -/
private theorem cutDoubleColon?_colon {rest : List Char} (hrest : rest.head? ≠ some ':') :
    cutDoubleColon? (':' :: rest) =
      (cutDoubleColon? rest).map fun p => (':' :: p.1, p.2) := by
  rw [cutDoubleColon?]
  rintro tail - rfl
  exact hrest rfl

/-- A printed group does not begin with a colon. -/
private theorem head?_colonChars_append (g : Fin 65536) (gs : List (Fin 65536))
    (tail : List Char) : (colonChars (g :: gs) ++ tail).head? ≠ some ':' := by
  obtain ⟨c, cs, hcs⟩ := List.exists_cons_of_ne_nil (hextetChars_ne_nil g)
  have hmem : c ∈ hextetChars g := by rw [hcs]; exact List.mem_cons_self
  have hne : c ≠ ':' := fun heq => colon_not_mem_hextetChars g (heq ▸ hmem)
  cases gs with
  | nil => simpa [hcs] using hne
  | cons g' gs => simpa [colonChars_cons_cons, hcs] using hne

/-- Looking for `::` behind printed groups. -/
private theorem cutDoubleColon?_colonChars (gs : List (Fin 65536)) (tail : List Char) :
    cutDoubleColon? (colonChars gs ++ tail) =
      (cutDoubleColon? tail).map fun p => (colonChars gs ++ p.1, p.2) := by
  induction gs with
  | nil => simp
  | cons g gs ih =>
      cases gs with
      | nil => simpa using cutDoubleColon?_append (colon_not_mem_hextetChars g) tail
      | cons g' gs =>
          rw [colonChars_cons_cons, List.append_assoc,
            cutDoubleColon?_append (colon_not_mem_hextetChars g), List.cons_append,
            cutDoubleColon?_colon (head?_colonChars_append g' gs tail), ih,
            Option.map_map, Option.map_map]
          congr 1
          funext p
          simp

/-- What the search for the longest run found is a run of zeros. -/
private theorem betterRun_spec (gs : List (Fin 65536)) {best : Option (Nat × Nat)}
    (hbest : ∀ i n, best = some (i, n) → 2 ≤ n ∧ n = zeroRun gs i) (j : Nat) :
    ∀ i n, betterRun gs best j = some (i, n) → 2 ≤ n ∧ n = zeroRun gs i := by
  intro i n h
  unfold betterRun at h
  split at h
  · next hbetter =>
      obtain ⟨rfl, rfl⟩ : j = i ∧ zeroRun gs j = n := by simpa using h
      exact ⟨hbetter.1, rfl⟩
  · exact hbest i n h

/-- The longest run of zeros is a run of zeros, of two groups at least. -/
theorem longestRun_spec (gs : List (Fin 65536)) {i n : Nat}
    (h : longestRun gs = some (i, n)) : 2 ≤ n ∧ n = zeroRun gs i := by
  have hfold : ∀ (js : List Nat) (best : Option (Nat × Nat)),
      (∀ i n, best = some (i, n) → 2 ≤ n ∧ n = zeroRun gs i) →
      ∀ i n, js.foldl (betterRun gs) best = some (i, n) → 2 ≤ n ∧ n = zeroRun gs i := by
    intro js
    induction js with
    | nil => exact fun _ hbest => hbest
    | cons j js ih => exact fun best hbest => ih _ (betterRun_spec gs hbest j)
  exact hfold _ none (by simp) i n h

/-- A run of zeros cuts the groups in three. -/
theorem eq_around_zeroRun (gs : List (Fin 65536)) (i : Nat) :
    gs = gs.take i ++ List.replicate (zeroRun gs i) 0 ++ gs.drop (i + zeroRun gs i) := by
  have hzeros : (gs.drop i).takeWhile (· = 0) = List.replicate (zeroRun gs i) 0 := by
    refine List.eq_replicate_iff.mpr ⟨rfl, fun g hg => ?_⟩
    simpa using List.mem_takeWhile_imp hg
  have htail : (gs.drop i).dropWhile (· = 0) = gs.drop (i + zeroRun gs i) := by
    rw [← List.drop_drop]
    have hsplit := List.takeWhile_append_dropWhile (p := (· = 0)) (l := gs.drop i)
    calc (gs.drop i).dropWhile (· = 0)
        = ((gs.drop i).takeWhile (· = 0) ++ (gs.drop i).dropWhile (· = 0)).drop
            (zeroRun gs i) := by rw [zeroRun, List.drop_left]
      _ = (gs.drop i).drop (zeroRun gs i) := by rw [hsplit]
  rw [List.append_assoc, ← hzeros, ← htail, List.takeWhile_append_dropWhile,
    List.take_append_drop]

/-- An address is completed by the zeros that were left out. -/
theorem fillZeros?_around {x : Ipv6} {left right : List (Fin 65536)} {n : Nat} (hn : 1 ≤ n)
    (hx : x.groups = left ++ List.replicate n 0 ++ right) : fillZeros? left right = some x := by
  have hlen := x.length_eq
  rw [hx] at hlen
  simp only [List.length_append, List.length_replicate] at hlen
  unfold fillZeros?
  rw [dif_pos (by omega)]
  have hcount : 8 - (left.length + right.length) = n := by omega
  cases x with
  | mk groups hgroups =>
      simp only at hx
      simp [hcount, hx]

/-- **IPv6 round trip.**  Every address is read back from its canonical form. -/
theorem parseIpv6_format (x : Ipv6) : parseIpv6 x.format = some x := by
  have hne : x.groups ≠ [] := by
    intro h
    have := x.length_eq
    simp [h] at this
  unfold Ipv6.format
  cases hrun : longestRun x.groups with
  | none =>
      have hcut : cutDoubleColon? (colonChars x.groups) = none := by
        simpa [cutDoubleColon?] using cutDoubleColon?_colonChars x.groups []
      simp only [parseIpv6, hcut, splitOn_colonChars hne, fieldGroups?_hextetChars]
      simp [x.length_eq]
  | some run =>
      obtain ⟨i, n⟩ := run
      obtain ⟨hn, rfl⟩ := longestRun_spec x.groups hrun
      have hcut : cutDoubleColon? (colonChars (x.groups.take i) ++ "::".toList ++
          colonChars (x.groups.drop (i + zeroRun x.groups i))) =
          some (colonChars (x.groups.take i),
            colonChars (x.groups.drop (i + zeroRun x.groups i))) := by
        rw [List.append_assoc, cutDoubleColon?_colonChars]
        simp [cutDoubleColon?]
      simp only [parseIpv6, hcut, sideFields_colonChars, mapM_hextet?_hextetChars,
        fieldGroups?_hextetChars]
      exact fillZeros?_around (by omega) (eq_around_zeroRun x.groups i)

/-! ## Characters -/

/-- Splitting loses the separators only. -/
theorem mem_splitOnP_iff {p : Char → Bool} {c : Char} {cs : List Char} :
    (∃ field ∈ cs.splitOnP p, c ∈ field) ↔ c ∈ cs ∧ p c = false := by
  induction cs with
  | nil => simp
  | cons d cs ih =>
      rw [List.splitOnP_cons_eq_if_modifyHead]
      obtain ⟨first, rest, hsplit⟩ := List.exists_cons_of_ne_nil (List.splitOnP_ne_nil p cs)
      rw [hsplit] at ih ⊢
      by_cases hd : p d = true
      · simp only [hd, if_true, List.mem_cons] at ih ⊢
        grind
      · simp only [hd, Bool.false_eq_true, if_false, List.modifyHead_cons, List.mem_cons] at ih ⊢
        grind

/-- A character is in a field exactly when it is in the text and does not separate. -/
theorem mem_splitOn_iff {sep c : Char} {cs : List Char} :
    (∃ field ∈ cs.splitOn sep, c ∈ field) ↔ c ∈ cs ∧ c ≠ sep := by
  rw [List.splitOn_eq_splitOnP, mem_splitOnP_iff]
  simp

/-- What address literals are made of. -/
def isLiteralChar (c : Char) : Bool := (hexDigit? c).isSome || c = '.' || c = ':'

/-- A decimal digit is a hexadecimal one. -/
theorem hexDigit?_of_decDigit? {c : Char} (h : (decDigit? c).isSome) : (hexDigit? c).isSome := by
  unfold decDigit? at h
  unfold hexDigit?
  split at h
  · next hc => rw [if_pos hc]; rfl
  · cases h

/-- Every character of a number is a digit. -/
theorem number?_isSome {digit? : Char → Option Nat} {base : Nat} {cs : List Char} {n : Nat}
    (h : number? digit? base cs = some n) : ∀ c ∈ cs, (digit? c).isSome := by
  obtain ⟨ds, hds, -⟩ := Option.map_eq_some_iff.mp h
  clear h
  induction cs generalizing ds with
  | nil => simp
  | cons c cs ih =>
      rw [List.mapM_cons] at hds
      obtain ⟨d, hd, hrest⟩ := Option.bind_eq_some_iff.mp hds
      obtain ⟨ds', hds', -⟩ := Option.bind_eq_some_iff.mp hrest
      intro e he
      rcases List.mem_cons.mp he with rfl | he
      · simp [hd]
      · exact ih ds' hds' e he

/-- An octet consists of one to three decimal digits. -/
theorem octet?_digits {cs : List Char} {n : Fin 256} (h : octet? cs = some n) :
    cs ≠ [] ∧ cs.length ≤ 3 ∧ ∀ c ∈ cs, (decDigit? c).isSome := by
  unfold octet? at h
  by_cases hform : cs.length ≤ 3 ∧ (cs.head? ≠ some '0' ∨ cs = ['0'])
  · rw [if_pos hform] at h
    obtain ⟨m, hm, -⟩ := Option.bind_eq_some_iff.mp h
    unfold decimal? at hm
    by_cases hnil : cs = []
    · simp [hnil] at hm
    · rw [if_neg hnil] at hm
      exact ⟨hnil, hform.1, number?_isSome hm⟩
  · rw [if_neg hform] at h
    cases h

/-- A hextet consists of hexadecimal digits. -/
theorem hextet?_digits {cs : List Char} {g : Fin 65536} (h : hextet? cs = some g) :
    ∀ c ∈ cs, (hexDigit? c).isSome := by
  unfold hextet? at h
  split at h
  · obtain ⟨n, hn, -⟩ := Option.map_eq_some_iff.mp h
    exact number?_isSome hn
  · cases h

/-- The fields of a dotted address. -/
theorem parseIpv4_fields {cs : List Char} {x : Ipv4} (h : parseIpv4 cs = some x) :
    ∀ field ∈ cs.splitOn '.', field ≠ [] ∧ field.length ≤ 3 ∧ ∀ c ∈ field, (decDigit? c).isSome := by
  unfold parseIpv4 at h
  split at h
  · next a b c d hsplit =>
      obtain ⟨xa, ha, h⟩ := Option.bind_eq_some_iff.mp h
      obtain ⟨xb, hb, h⟩ := Option.bind_eq_some_iff.mp h
      obtain ⟨xc, hc, h⟩ := Option.bind_eq_some_iff.mp h
      obtain ⟨xd, hd, -⟩ := Option.bind_eq_some_iff.mp h
      intro field hfield
      simp only [hsplit, List.mem_cons, List.not_mem_nil, or_false] at hfield
      rcases hfield with rfl | rfl | rfl | rfl
      · exact octet?_digits ha
      · exact octet?_digits hb
      · exact octet?_digits hc
      · exact octet?_digits hd
  · cases h

/-- An IPv4 literal consists of characters of literals. -/
theorem parseIpv4_chars {cs : List Char} {x : Ipv4} (h : parseIpv4 cs = some x) :
    ∀ c ∈ cs, isLiteralChar c = true := by
  intro c hc
  by_cases hdot : c = '.'
  · simp [isLiteralChar, hdot]
  · obtain ⟨field, hfield, hmem⟩ := mem_splitOn_iff.mpr ⟨hc, hdot⟩
    have hdigit := hexDigit?_of_decDigit? ((parseIpv4_fields h field hfield).2.2 c hmem)
    simp [isLiteralChar, hdigit]

/-- The groups of an IPv6 literal have only characters of literals. -/
theorem fieldGroups?_chars {fields : List (List Char)} {gs : List (Fin 65536)}
    (h : fieldGroups? fields = some gs) :
    ∀ field ∈ fields, ∀ c ∈ field, isLiteralChar c = true := by
  induction fields generalizing gs with
  | nil => simp
  | cons field rest ih =>
      cases rest with
      | nil =>
          intro field' hfield' c hc
          obtain rfl : field' = field := by simpa using hfield'
          unfold fieldGroups? at h
          split at h
          · obtain ⟨x, hx, -⟩ := Option.map_eq_some_iff.mp h
            exact parseIpv4_chars hx c hc
          · obtain ⟨g, hg, -⟩ := Option.map_eq_some_iff.mp h
            simp [isLiteralChar, hextet?_digits hg c hc]
      | cons next rest =>
          rw [fieldGroups?] at h
          · obtain ⟨g, hg, hrest⟩ := Option.bind_eq_some_iff.mp h
            obtain ⟨gs', hgs', -⟩ := Option.bind_eq_some_iff.mp hrest
            intro field' hfield' c hc
            rcases List.mem_cons.mp hfield' with rfl | hfield'
            · simp [isLiteralChar, hextet?_digits hg c hc]
            · exact ih hgs' field' hfield' c hc
          · simp

/-- Fields that are read as hextets have only characters of literals. -/
theorem mapM_hextet?_chars {fields : List (List Char)} {gs : List (Fin 65536)}
    (h : fields.mapM hextet? = some gs) :
    ∀ field ∈ fields, ∀ c ∈ field, isLiteralChar c = true := by
  induction fields generalizing gs with
  | nil => simp
  | cons field rest ih =>
      rw [List.mapM_cons] at h
      obtain ⟨g, hg, hrest⟩ := Option.bind_eq_some_iff.mp h
      obtain ⟨gs', hgs', -⟩ := Option.bind_eq_some_iff.mp hrest
      intro field' hfield' c hc
      rcases List.mem_cons.mp hfield' with rfl | hfield'
      · simp [isLiteralChar, hextet?_digits hg c hc]
      · exact ih hgs' field' hfield' c hc

/-- A text is cut at a double colon. -/
theorem cutDoubleColon?_eq_some {cs left right : List Char}
    (h : cutDoubleColon? cs = some (left, right)) : cs = left ++ ':' :: ':' :: right := by
  induction cs generalizing left with
  | nil => simp [cutDoubleColon?] at h
  | cons c cs ih =>
      unfold cutDoubleColon? at h
      split at h
      · next heq =>
          obtain ⟨rfl, rfl⟩ := by simpa using h
          exact heq
      · next heq =>
          obtain ⟨p, hp, hpair⟩ := Option.map_eq_some_iff.mp h
          simp only [List.cons.injEq] at heq
          obtain ⟨rfl, rfl⟩ := heq
          obtain ⟨rfl, rfl⟩ : c :: p.1 = left ∧ p.2 = right := by simpa using hpair
          rw [ih hp]
          rfl
      · simp at *

/-- The characters of one side of `::`. -/
theorem chars_of_sideFields {cs : List Char}
    (h : ∀ field ∈ sideFields cs, ∀ c ∈ field, isLiteralChar c = true) :
    ∀ c ∈ cs, isLiteralChar c = true := by
  intro c hc
  have hne : cs ≠ [] := List.ne_nil_of_mem hc
  by_cases hcolon : c = ':'
  · simp [isLiteralChar, hcolon]
  · obtain ⟨field, hfield, hmem⟩ := mem_splitOn_iff.mpr ⟨hc, hcolon⟩
    refine h field ?_ c hmem
    simpa [sideFields, hne] using hfield

/-- An IPv6 literal consists of characters of literals. -/
theorem parseIpv6_chars {cs : List Char} {x : Ipv6} (h : parseIpv6 cs = some x) :
    ∀ c ∈ cs, isLiteralChar c = true := by
  have hne : cs ≠ [] → sideFields cs = cs.splitOn ':' := fun hne => by simp [sideFields, hne]
  unfold parseIpv6 at h
  split at h
  · obtain ⟨gs, hgs, -⟩ := Option.bind_eq_some_iff.mp h
    intro c hc
    refine chars_of_sideFields ?_ c hc
    rw [hne (List.ne_nil_of_mem hc)]
    exact fieldGroups?_chars hgs
  · next left right hcut =>
      obtain ⟨gl, hgl, hrest⟩ := Option.bind_eq_some_iff.mp h
      obtain ⟨gr, hgr, -⟩ := Option.bind_eq_some_iff.mp hrest
      intro c hc
      rw [cutDoubleColon?_eq_some hcut] at hc
      simp only [List.mem_append, List.mem_cons] at hc
      rcases hc with hc | rfl | rfl | hc
      · exact chars_of_sideFields (mapM_hextet?_chars hgl) c hc
      · decide
      · decide
      · exact chars_of_sideFields (fieldGroups?_chars hgr) c hc

/-- An IPv6 literal has a colon. -/
theorem colon_mem_of_parseIpv6 {cs : List Char} {x : Ipv6} (h : parseIpv6 cs = some x) :
    ':' ∈ cs := by
  by_contra hcolon
  unfold parseIpv6 at h
  split at h
  · obtain ⟨gs, hgs, h⟩ := Option.bind_eq_some_iff.mp h
    rw [List.splitOn_eq_singleton hcolon] at hgs
    have hlen : gs.length ≤ 2 := by
      unfold fieldGroups? at hgs
      split at hgs
      · obtain ⟨a, -, rfl⟩ := Option.map_eq_some_iff.mp hgs
        simp [Ipv4.groups]
      · obtain ⟨g, -, rfl⟩ := Option.map_eq_some_iff.mp hgs
        simp
    split at h
    · omega
    · cases h
  · next left right hcut =>
      rw [cutDoubleColon?_eq_some hcut] at hcolon
      simp at hcolon

end IpLiterals
