import Mathlib
/-!
# Lua as it is written

The part of Lua in which configuration is written: comments, calls, methods and one
assignment to a name, over strings, integers, truth values, tables and the results of
calls.  A text outside this part is not read.

* `lex_exp`, `exp_read` — an expression that is written is read again;
* `parse_write` — so is a chunk.
-/

namespace LuaText

/-! ## Tokens -/

inductive Token where
  | name (text : String)
  | int (n : Nat)
  | str (s : String)
  | sym (c : Char)
  deriving DecidableEq, Repr

def isSpace (c : Char) : Bool := c ∈ [' ', '\t', '\n', '\r', '\x0b', '\x0c']

def isBreak (c : Char) : Bool := c = '\n' || c = '\r'

def isNameStart (c : Char) : Bool := c.isAlpha || c = '_'

def isNameChar (c : Char) : Bool := c.isAlphanum || c = '_'

/-- What a numeral runs over, whatever its notation. -/
def isNumeralChar (c : Char) : Bool := isNameChar c || c = '.'

def simpleEscape (c : Char) : Option Char :=
  [('a', '\x07'), ('b', '\x08'), ('f', '\x0c'), ('n', '\n'), ('r', '\r'), ('t', '\t'),
    ('v', '\x0b'), ('\\', '\\'), ('"', '"'), ('\'', '\''), ('\n', '\n')].lookup c

/-- A character by its number; those that are part of a longer encoding are left out. -/
def ascii (n : Nat) : Option Char := if n < 128 then some (Char.ofNat n) else none

def hexValue (c : Char) : Option Nat :=
  if c.isDigit then some (c.toNat - 48)
  else if 'a' ≤ c ∧ c ≤ 'f' then some (c.toNat - 87)
  else if 'A' ≤ c ∧ c ≤ 'F' then some (c.toNat - 55)
  else none

/-- Two hexadecimal digits. -/
def readHex : List Char → Option (Char × List Char)
  | h :: l :: rest => do
      let code := 16 * (← hexValue h) + (← hexValue l)
      return (← ascii code, rest)
  | _ => none

/-- Up to three decimal digits. -/
def readDecimal (text : List Char) : Option (Char × List Char) :=
  let digits := (text.take 3).takeWhile Char.isDigit
  if digits = [] then none
  else (ascii (Nat.ofDigitChars 10 digits 0)).map fun e => (e, text.drop digits.length)

/-- What follows a backslash: the character it stands for, if any, and the rest. -/
def readEscape : List Char → Option (Option Char × List Char)
  | [] => none
  | c :: rest =>
      match simpleEscape c with
      | some e => some (some e, rest)
      | none =>
          if c = 'z' then some (none, rest.dropWhile isSpace)
          else if c = 'x' then (readHex rest).map fun p => (some p.1, p.2)
          else (readDecimal (c :: rest)).map fun p => (some p.1, p.2)

/-- A hexadecimal escape takes characters. -/
theorem readHex_length {text rest : List Char} {e : Char} (h : readHex text = some (e, rest)) :
    rest.length < text.length := by
  unfold readHex at h
  split at h
  · simp only [Option.bind_eq_bind, Option.bind_eq_some_iff, Option.pure_def, Option.some.injEq,
      Prod.mk.injEq] at h
    obtain ⟨_, _, _, _, _, _, _, rfl⟩ := h
    simp only [List.length_cons]
    omega
  · cases h

/-- A decimal escape takes characters. -/
theorem readDecimal_length {text rest : List Char} {e : Char}
    (h : readDecimal text = some (e, rest)) : rest.length < text.length := by
  unfold readDecimal at h
  dsimp only at h
  split at h
  · cases h
  · rename_i hdigits
    obtain ⟨_, -, heq⟩ := Option.map_eq_some_iff.mp h
    obtain ⟨-, rfl⟩ := Prod.mk.inj heq
    have hpos := List.length_pos_iff.mpr hdigits
    have hle := (List.takeWhile_prefix (l := text.take 3) Char.isDigit).length_le
    rw [List.length_take] at hle
    rw [List.length_drop]
    omega

/-- Every escape takes characters. -/
theorem readEscape_length {text rest : List Char} {e : Option Char}
    (h : readEscape text = some (e, rest)) : rest.length < text.length := by
  cases text with
  | nil => cases h
  | cons c cs =>
      rw [readEscape] at h
      split at h
      · obtain ⟨-, rfl⟩ := Prod.mk.inj (Option.some.inj h)
        exact Nat.lt_succ_self _
      · split at h
        · obtain ⟨-, rfl⟩ := Prod.mk.inj (Option.some.inj h)
          have hdrop := (List.dropWhile_suffix (l := cs) isSpace).length_le
          rw [List.length_cons]
          omega
        · split at h
          · obtain ⟨p, hp, heq⟩ := Option.map_eq_some_iff.mp h
            obtain ⟨-, rfl⟩ := Prod.mk.inj heq
            exact (readHex_length hp).trans (Nat.lt_succ_self _)
          · obtain ⟨p, hp, heq⟩ := Option.map_eq_some_iff.mp h
            obtain ⟨-, rfl⟩ := Prod.mk.inj heq
            exact readDecimal_length hp

/-- The text of a string literal behind its opening mark, up to the closing one. -/
def readString (mark : Char) : List Char → Option (List Char × List Char)
  | [] => none
  | c :: rest =>
      if c = mark then some ([], rest)
      else if isBreak c then none
      else if c = '\\' then
        match _h : readEscape rest with
        | none => none
        | some (e, rest') => (readString mark rest').map fun p => (e.toList ++ p.1, p.2)
      else (readString mark rest).map fun p => (c :: p.1, p.2)
termination_by text => text.length
decreasing_by
  · have := readEscape_length _h
    simp only [List.length_cons]
    omega
  · simp

/-- A string takes at least its closing mark. -/
theorem readString_length {mark : Char} {text s rest : List Char}
    (h : readString mark text = some (s, rest)) : rest.length < text.length := by
  fun_induction readString mark text generalizing s with
  | case1 => cases h
  | case2 rest' =>
      obtain ⟨-, rfl⟩ := Prod.mk.inj (Option.some.inj h)
      simp
  | case3 => cases h
  | case4 => cases h
  | case5 rest' e rest'' hescape _ _ ih =>
      obtain ⟨p, hp, heq⟩ := Option.map_eq_some_iff.mp h
      obtain ⟨-, rfl⟩ := Prod.mk.inj heq
      have hlater := ih hp
      have hshorter := readEscape_length hescape
      simp only [List.length_cons]
      omega
  | case6 c rest' _ _ _ ih =>
      obtain ⟨p, hp, heq⟩ := Option.map_eq_some_iff.mp h
      obtain ⟨-, rfl⟩ := Prod.mk.inj heq
      have hlater := ih hp
      simp only [List.length_cons]
      omega

/-- A numeral that is a plain integer. -/
def numeral (text : List Char) : Option Nat :=
  if text.all Char.isDigit ∧ Nat.ofDigitChars 10 text 0 < 2 ^ 63 then
    some (Nat.ofDigitChars 10 text 0)
  else none

/-- The rest of a comment's line; a comment in long brackets is left out. -/
def readComment : List Char → Option (List Char)
  | '-' :: '[' :: _ => none
  | '-' :: comment => some (comment.dropWhile (!isBreak ·))
  | _ => none

/-- A comment takes at least its opening. -/
theorem readComment_length {text rest : List Char} (h : readComment text = some rest) :
    rest.length < text.length := by
  unfold readComment at h
  split at h
  · cases h
  · rename_i comment _
    obtain rfl := Option.some.inj h
    have hdrop := (List.dropWhile_suffix (l := comment) (!isBreak ·)).length_le
    rw [List.length_cons]
    omega
  · cases h

/-- The signs of this part; `==` and `::` are two signs that no rule has next to each other. -/
def signs : List Char := ['(', ')', '{', '}', ',', ';', ':', '=']

def lex : List Char → Option (List Token)
  | [] => some []
  | c :: rest =>
      if isSpace c then lex rest
      else if c = '"' ∨ c = '\'' then
        match _h : readString c rest with
        | none => none
        | some (s, rest') => (lex rest').map (.str (String.ofList s) :: ·)
      else if isNameStart c then
        (lex (rest.dropWhile isNameChar)).map
          (.name (String.ofList (c :: rest.takeWhile isNameChar)) :: ·)
      else if c.isDigit then
        (numeral (c :: rest.takeWhile isNumeralChar)).bind fun n =>
          (lex (rest.dropWhile isNumeralChar)).map (.int n :: ·)
      else if c = '-' then
        match _h : readComment rest with
        | none => none
        | some rest' => lex rest'
      else if c ∈ signs then (lex rest).map (.sym c :: ·)
      else none
termination_by text => text.length
decreasing_by
  · simp
  · have := readString_length _h
    simp only [List.length_cons]
    omega
  · have := (List.dropWhile_suffix (l := rest) isNameChar).length_le
    simp only [List.length_cons]
    omega
  · have := (List.dropWhile_suffix (l := rest) isNumeralChar).length_le
    simp only [List.length_cons]
    omega
  · have := readComment_length _h
    simp only [List.length_cons]
    omega
  · simp

/-! ## Syntax -/

inductive Exp where
  | bool (b : Bool)
  | int (n : Int)
  | str (s : String)
  | table (fields : List (Option String × Exp))
  /-- A name and the calls made on it, each of them of a method or of the value itself. -/
  | chain (name : String) (calls : List (Option String × List Exp))

inductive Stat where
  | call (name : String) (calls : List (Option String × List Exp))
  | assign (name : String) (e : Exp)

def reserved : List String :=
  ["and", "break", "do", "else", "elseif", "end", "false", "for", "function", "goto", "if", "in",
    "local", "nil", "not", "or", "repeat", "return", "then", "true", "until", "while"]

def isWord (w : String) : Bool :=
  match w.toList with
  | [] => false
  | c :: rest => isNameStart c && rest.all isNameChar

/-- A word that is not reserved. -/
def IsName (w : String) : Prop := isWord w = true ∧ w ∉ reserved

instance (w : String) : Decidable (IsName w) := inferInstanceAs (Decidable (_ ∧ _))

/-! ### Parsing -/

mutual

def exp : Nat → List Token → Option (Exp × List Token)
  | 0, _ => none
  | _ + 1, .str s :: rest => some (.str s, rest)
  | _ + 1, .int n :: rest => some (.int n, rest)
  | n + 1, .sym '{' :: rest => (fields n rest).map fun p => (.table p.1, p.2)
  | n + 1, .name w :: rest =>
      if w = "true" then some (.bool true, rest)
      else if w = "false" then some (.bool false, rest)
      else if w ∈ reserved then none
      else (calls n rest).map fun p => (.chain w p.1, p.2)
  | _ + 1, _ => none

/-- Calls, as many as there are; a string or a table as the argument is left out. -/
def calls : Nat → List Token → Option (List (Option String × List Exp) × List Token)
  | 0, _ => none
  | n + 1, .sym '(' :: rest =>
      (args n rest).bind fun p => (calls n p.2).map fun q => ((none, p.1) :: q.1, q.2)
  | n + 1, .sym ':' :: .name w :: .sym '(' :: rest =>
      if w ∈ reserved then none
      else (args n rest).bind fun p => (calls n p.2).map fun q => ((some w, p.1) :: q.1, q.2)
  | _ + 1, .sym ':' :: _ => none
  | _ + 1, .sym '{' :: _ => none
  | _ + 1, .str _ :: _ => none
  | _ + 1, rest => some ([], rest)

/-- Arguments behind the opening bracket. -/
def args : Nat → List Token → Option (List Exp × List Token)
  | 0, _ => none
  | _ + 1, .sym ')' :: rest => some ([], rest)
  | n + 1, toks => (exp n toks).bind fun p => (moreArgs n p.2).map fun q => (p.1 :: q.1, q.2)

def moreArgs : Nat → List Token → Option (List Exp × List Token)
  | 0, _ => none
  | _ + 1, .sym ')' :: rest => some ([], rest)
  | n + 1, .sym ',' :: toks =>
      (exp n toks).bind fun p => (moreArgs n p.2).map fun q => (p.1 :: q.1, q.2)
  | _ + 1, _ => none

/-- Fields behind the opening brace. -/
def fields : Nat → List Token → Option (List (Option String × Exp) × List Token)
  | 0, _ => none
  | _ + 1, .sym '}' :: rest => some ([], rest)
  | n + 1, .name w :: .sym '=' :: toks =>
      if w ∈ reserved then none
      else
        (exp n toks).bind fun p => (moreFields n p.2).map fun q => ((some w, p.1) :: q.1, q.2)
  | n + 1, toks =>
      (exp n toks).bind fun p => (moreFields n p.2).map fun q => ((none, p.1) :: q.1, q.2)

def moreFields : Nat → List Token → Option (List (Option String × Exp) × List Token)
  | 0, _ => none
  | _ + 1, .sym '}' :: rest => some ([], rest)
  | n + 1, .sym ',' :: toks => fields n toks
  | n + 1, .sym ';' :: toks => fields n toks
  | _ + 1, _ => none

end

def stat (n : Nat) : List Token → Option (Stat × List Token)
  | .name w :: .sym '=' :: rest =>
      if w ∈ reserved then none else (exp n rest).map fun p => (.assign w p.1, p.2)
  | .name w :: rest =>
      if w ∈ reserved then none
      else
        (calls n rest).bind fun p => if p.1 = [] then none else some (.call w p.1, p.2)
  | _ => none

def chunk : Nat → List Token → Option (List Stat)
  | _, [] => some []
  | 0, _ => none
  | n + 1, .sym ';' :: rest => chunk n rest
  | n + 1, toks => (stat n toks).bind fun p => (chunk n p.2).map (p.1 :: ·)

/-- The statements of a text. -/
def parse (text : String) : Option (List Stat) :=
  (lex text.toList).bind fun toks => chunk (2 * toks.length) toks

/-! ### Writing -/

mutual

def tokens : Exp → List Token
  | .bool b => [.name (if b then "true" else "false")]
  | .int n => [.int n.toNat]
  | .str s => [.str s]
  | .table fs => .sym '{' :: fieldTokens fs
  | .chain w cs => .name w :: callTokens cs

def callTokens : List (Option String × List Exp) → List Token
  | [] => []
  | (none, es) :: cs => .sym '(' :: (argTokens es ++ callTokens cs)
  | (some w, es) :: cs => .sym ':' :: .name w :: .sym '(' :: (argTokens es ++ callTokens cs)

def argTokens : List Exp → List Token
  | [] => [.sym ')']
  | e :: es => tokens e ++ moreArgTokens es

def moreArgTokens : List Exp → List Token
  | [] => [.sym ')']
  | e :: es => .sym ',' :: (tokens e ++ moreArgTokens es)

def fieldTokens : List (Option String × Exp) → List Token
  | [] => [.sym '}']
  | (none, e) :: fs => tokens e ++ moreFieldTokens fs
  | (some w, e) :: fs => .name w :: .sym '=' :: (tokens e ++ moreFieldTokens fs)

def moreFieldTokens : List (Option String × Exp) → List Token
  | [] => [.sym '}']
  | (none, e) :: fs => .sym ',' :: (tokens e ++ moreFieldTokens fs)
  | (some w, e) :: fs => .sym ',' :: .name w :: .sym '=' :: (tokens e ++ moreFieldTokens fs)

end

def statTokens : Stat → List Token
  | .call w cs => .name w :: callTokens cs
  | .assign w e => .name w :: .sym '=' :: tokens e

mutual

/-- An expression that can be written: its names are names, and its numbers are integers
of the language. -/
def Ok : Exp → Prop
  | .bool _ => True
  | .int n => 0 ≤ n ∧ n < 2 ^ 63
  | .str _ => True
  | .table fs => OkFields fs
  | .chain w cs => IsName w ∧ OkCalls cs

def OkCalls : List (Option String × List Exp) → Prop
  | [] => True
  | (w, es) :: cs => (∀ name ∈ w, IsName name) ∧ OkArgs es ∧ OkCalls cs

def OkArgs : List Exp → Prop
  | [] => True
  | e :: es => Ok e ∧ OkArgs es

def OkFields : List (Option String × Exp) → Prop
  | [] => True
  | (w, e) :: fs => (∀ name ∈ w, IsName name) ∧ Ok e ∧ OkFields fs

end

def OkStat : Stat → Prop
  | .call w cs => IsName w ∧ OkCalls cs ∧ cs ≠ []
  | .assign w e => IsName w ∧ Ok e

/-! ## Parsing what was written -/

/-- What follows ends the calls on a value. -/
def Stops (rest : List Token) : Prop :=
  ∀ t ∈ rest.head?, t ≠ .sym '(' ∧ t ≠ .sym ':' ∧ t ≠ .sym '{' ∧ ∀ s, t ≠ .str s

/-- No call follows where the next token cannot open one. -/
theorem calls_stop {n : Nat} {rest : List Token} (h : Stops rest) :
    calls (n + 1) rest = some ([], rest) := by
  unfold calls
  split <;> simp_all [Stops]

theorem tokens_pos (e : Exp) : 0 < (tokens e).length := by
  cases e <;> simp [tokens]

/-- The list of further arguments has at least its closing token. -/
theorem moreArgTokens_pos (es : List Exp) : 0 < (moreArgTokens es).length := by
  cases es <;> simp [moreArgTokens]

/-- The tokens of further fields are at least one. -/
theorem moreFieldTokens_pos (fs : List (Option String × Exp)) :
    0 < (moreFieldTokens fs).length := by
  match fs with
  | [] => simp [moreFieldTokens]
  | (none, e) :: fs => simp [moreFieldTokens]
  | (some w, e) :: fs => simp [moreFieldTokens]

theorem IsName.ne {w k : String} (h : IsName w) (hk : k ∈ reserved) : w ≠ k :=
  fun heq => h.2 (heq ▸ hk)

/-- An expression does not begin with what ends a list. -/
theorem args_exp (n : Nat) (e : Exp) (rest : List Token) : args (n + 1) (tokens e ++ rest) =
    (exp n (tokens e ++ rest)).bind fun p => (moreArgs n p.2).map fun q => (p.1 :: q.1, q.2) := by
  cases e <;> rfl

theorem stops_moreArgs (es : List Exp) (rest : List Token) : Stops (moreArgTokens es ++ rest) := by
  cases es <;> simp [Stops, moreArgTokens]

/-- Behind a field stands a comma or the closing brace. -/
theorem stops_moreFields (fs : List (Option String × Exp)) (rest : List Token) :
    Stops (moreFieldTokens fs ++ rest) := by
  match fs with
  | [] => simp [Stops, moreFieldTokens]
  | (none, e) :: fs => simp [Stops, moreFieldTokens]
  | (some w, e) :: fs => simp [Stops, moreFieldTokens]

/-- A field without a name is an expression. -/
theorem fields_exp (n : Nat) (e : Exp) (fs : List (Option String × Exp)) (rest : List Token) :
    fields (n + 1) (tokens e ++ (moreFieldTokens fs ++ rest)) =
      (exp n (tokens e ++ (moreFieldTokens fs ++ rest))).bind fun p =>
        (moreFields n p.2).map fun q => ((none, p.1) :: q.1, q.2) := by
  cases e with
  | bool b => match fs with
    | [] => rfl
    | (none, _) :: _ => rfl
    | (some _, _) :: _ => rfl
  | int k => rfl
  | str s => rfl
  | table gs => rfl
  | chain w cs => match cs, fs with
    | [], [] => rfl
    | [], (none, _) :: _ => rfl
    | [], (some _, _) :: _ => rfl
    | (none, _) :: _, _ => rfl
    | (some _, _) :: _, _ => rfl

mutual

/-- **An expression that is written is read again.** -/
theorem exp_read {n : Nat} {rest : List Token} (hrest : Stops rest) :
    ∀ e : Exp, Ok e → 2 * (tokens e).length ≤ n → exp n (tokens e ++ rest) = some (e, rest)
  | .bool b, _, hn => by
      obtain ⟨m, rfl⟩ := Nat.exists_eq_add_of_le' (Nat.le_trans (by decide : 1 ≤ 2) hn)
      cases b <;> rfl
  | .int k, hok, hn => by
      obtain ⟨m, rfl⟩ := Nat.exists_eq_add_of_le' (Nat.le_trans (by decide : 1 ≤ 2) hn)
      obtain ⟨j, rfl⟩ := Int.eq_ofNat_of_zero_le hok.1
      rfl
  | .str s, _, hn => by
      obtain ⟨m, rfl⟩ := Nat.exists_eq_add_of_le' (Nat.le_trans (by decide : 1 ≤ 2) hn)
      rfl
  | .table fs, hok, hn => by
      rw [tokens, List.length_cons] at hn
      obtain ⟨m, rfl⟩ : ∃ m, n = m + 1 := ⟨n - 1, by omega⟩
      have hfields := fields_read fs hok (by omega : 2 * (fieldTokens fs).length ≤ m) rest
      rw [tokens, List.cons_append, exp, hfields]
      rfl
  | .chain w cs, hok, hn => by
      rw [tokens, List.length_cons] at hn
      obtain ⟨m, rfl⟩ : ∃ m, n = m + 1 := ⟨n - 1, by omega⟩
      have hcalls := calls_read hrest cs hok.2 (by omega : 2 * (callTokens cs).length + 1 ≤ m)
      rw [tokens, List.cons_append, exp, if_neg (hok.1.ne (by decide)),
        if_neg (hok.1.ne (by decide)), if_neg hok.1.2, hcalls]
      rfl

/-- Calls are read back, one after the other. -/
theorem calls_read {n : Nat} {rest : List Token} (hrest : Stops rest) :
    ∀ cs : List (Option String × List Exp), OkCalls cs → 2 * (callTokens cs).length + 1 ≤ n →
      calls n (callTokens cs ++ rest) = some (cs, rest)
  | [], _, hn => by
      obtain ⟨m, rfl⟩ : ∃ m, n = m + 1 := ⟨n - 1, by omega⟩
      exact calls_stop hrest
  | (none, es) :: cs, hok, hn => by
      rw [callTokens, List.length_cons, List.length_append] at hn
      obtain ⟨m, rfl⟩ : ∃ m, n = m + 1 := ⟨n - 1, by omega⟩
      have hargs := args_read es hok.2.1 (by omega : 2 * (argTokens es).length ≤ m)
        (callTokens cs ++ rest)
      have hcalls := calls_read hrest cs hok.2.2 (by omega : 2 * (callTokens cs).length + 1 ≤ m)
      rw [callTokens, List.cons_append, List.append_assoc, calls, hargs]
      simp [hcalls]
  | (some w, es) :: cs, hok, hn => by
      rw [callTokens, List.length_cons, List.length_cons, List.length_cons,
        List.length_append] at hn
      obtain ⟨m, rfl⟩ : ∃ m, n = m + 1 := ⟨n - 1, by omega⟩
      have hargs := args_read es hok.2.1 (by omega : 2 * (argTokens es).length ≤ m)
        (callTokens cs ++ rest)
      have hcalls := calls_read hrest cs hok.2.2 (by omega : 2 * (callTokens cs).length + 1 ≤ m)
      rw [callTokens, List.cons_append, List.cons_append, List.cons_append, List.append_assoc,
        calls, if_neg (hok.1 w rfl).2, hargs]
      simp [hcalls]

/-- Arguments are read back. -/
theorem args_read {n : Nat} :
    ∀ es : List Exp, OkArgs es → 2 * (argTokens es).length ≤ n → ∀ rest,
      args n (argTokens es ++ rest) = some (es, rest)
  | [], _, hn, rest => by
      obtain ⟨m, rfl⟩ := Nat.exists_eq_add_of_le' (Nat.le_trans (by decide : 1 ≤ 2) hn)
      rfl
  | e :: es, hok, hn, rest => by
      rw [argTokens, List.length_append] at hn
      have hpos := tokens_pos e
      have hpos' := moreArgTokens_pos es
      obtain ⟨m, rfl⟩ : ∃ m, n = m + 1 := ⟨n - 1, by omega⟩
      have hexp := exp_read (stops_moreArgs es rest) e hok.1 (by omega : 2 * (tokens e).length ≤ m)
      have hmore := moreArgs_read es hok.2 (by omega : 2 * (moreArgTokens es).length ≤ m) rest
      rw [argTokens, List.append_assoc, args_exp, hexp]
      simp [hmore]

/-- The arguments behind a first one are read back from their tokens. -/
theorem moreArgs_read {n : Nat} :
    ∀ es : List Exp, OkArgs es → 2 * (moreArgTokens es).length ≤ n → ∀ rest,
      moreArgs n (moreArgTokens es ++ rest) = some (es, rest)
  | [], _, hn, rest => by
      obtain ⟨m, rfl⟩ := Nat.exists_eq_add_of_le' (Nat.le_trans (by decide : 1 ≤ 2) hn)
      rfl
  | e :: es, hok, hn, rest => by
      rw [moreArgTokens, List.length_cons, List.length_append] at hn
      obtain ⟨m, rfl⟩ : ∃ m, n = m + 1 := ⟨n - 1, by omega⟩
      have hexp := exp_read (stops_moreArgs es rest) e hok.1 (by omega : 2 * (tokens e).length ≤ m)
      have hmore := moreArgs_read es hok.2 (by omega : 2 * (moreArgTokens es).length ≤ m) rest
      rw [moreArgTokens, List.cons_append, List.append_assoc, moreArgs, hexp]
      simp [hmore]

/-- Fields are read back. -/
theorem fields_read {n : Nat} :
    ∀ fs : List (Option String × Exp), OkFields fs → 2 * (fieldTokens fs).length ≤ n → ∀ rest,
      fields n (fieldTokens fs ++ rest) = some (fs, rest)
  | [], _, hn, rest => by
      obtain ⟨m, rfl⟩ := Nat.exists_eq_add_of_le' (Nat.le_trans (by decide : 1 ≤ 2) hn)
      rfl
  | (none, e) :: fs, hok, hn, rest => by
      rw [fieldTokens, List.length_append] at hn
      have hpos := tokens_pos e
      have hpos' := moreFieldTokens_pos fs
      obtain ⟨m, rfl⟩ : ∃ m, n = m + 1 := ⟨n - 1, by omega⟩
      have hexp := exp_read (stops_moreFields fs rest) e hok.2.1 (by omega : 2 * (tokens e).length ≤ m)
      have hmore := moreFields_read fs hok.2.2 (by omega : 2 * (moreFieldTokens fs).length ≤ m) rest
      rw [fieldTokens, List.append_assoc, fields_exp, hexp]
      simp [hmore]
  | (some w, e) :: fs, hok, hn, rest => by
      rw [fieldTokens, List.length_cons, List.length_cons, List.length_append] at hn
      obtain ⟨m, rfl⟩ : ∃ m, n = m + 1 := ⟨n - 1, by omega⟩
      have hexp := exp_read (stops_moreFields fs rest) e hok.2.1 (by omega : 2 * (tokens e).length ≤ m)
      have hmore := moreFields_read fs hok.2.2 (by omega : 2 * (moreFieldTokens fs).length ≤ m) rest
      rw [fieldTokens, List.cons_append, List.cons_append, List.append_assoc, fields,
        if_neg (hok.1 w rfl).2, hexp]
      simp [hmore]

/-- The fields behind a first one are read back from their tokens. -/
theorem moreFields_read {n : Nat} :
    ∀ fs : List (Option String × Exp), OkFields fs → 2 * (moreFieldTokens fs).length ≤ n → ∀ rest,
      moreFields n (moreFieldTokens fs ++ rest) = some (fs, rest)
  | [], _, hn, rest => by
      obtain ⟨m, rfl⟩ := Nat.exists_eq_add_of_le' (Nat.le_trans (by decide : 1 ≤ 2) hn)
      rfl
  | (none, e) :: fs, hok, hn, rest => by
      rw [moreFieldTokens, List.length_cons, List.length_append] at hn
      have hpos := tokens_pos e
      have hpos' := moreFieldTokens_pos fs
      obtain ⟨m, rfl⟩ : ∃ m, n = m + 2 := ⟨n - 2, by omega⟩
      have hexp := exp_read (stops_moreFields fs rest) e hok.2.1 (by omega : 2 * (tokens e).length ≤ m)
      have hmore := moreFields_read fs hok.2.2 (by omega : 2 * (moreFieldTokens fs).length ≤ m) rest
      rw [moreFieldTokens, List.cons_append, List.append_assoc, moreFields, fields_exp, hexp]
      simp [hmore]
  | (some w, e) :: fs, hok, hn, rest => by
      rw [moreFieldTokens, List.length_cons, List.length_cons, List.length_cons,
        List.length_append] at hn
      obtain ⟨m, rfl⟩ : ∃ m, n = m + 2 := ⟨n - 2, by omega⟩
      have hexp := exp_read (stops_moreFields fs rest) e hok.2.1 (by omega : 2 * (tokens e).length ≤ m)
      have hmore := moreFields_read fs hok.2.2 (by omega : 2 * (moreFieldTokens fs).length ≤ m) rest
      rw [moreFieldTokens, List.cons_append, List.cons_append, List.cons_append,
        List.append_assoc, moreFields, fields, if_neg (hok.1 w rfl).2, hexp]
      simp [hmore]

end

/-- A statement is read back, up to where it stops. -/
theorem stat_read {n : Nat} {rest : List Token} (hrest : Stops rest) {s : Stat} (hs : OkStat s)
    (hn : 2 * (statTokens s).length ≤ n + 1) : stat n (statTokens s ++ rest) = some (s, rest) := by
  cases s with
  | call w cs =>
      obtain ⟨hw, hcs, hne⟩ := hs
      rw [statTokens, List.length_cons] at hn
      have hcalls := calls_read hrest cs hcs (by omega : 2 * (callTokens cs).length + 1 ≤ n)
      have hsplit : stat n (.name w :: (callTokens cs ++ rest)) =
          (calls n (callTokens cs ++ rest)).bind fun p =>
            if p.1 = [] then none else some (.call w p.1, p.2) := by
        match cs, hne with
        | (none, _) :: _, _ => exact if_neg hw.2
        | (some _, _) :: _, _ => exact if_neg hw.2
      rw [statTokens, List.cons_append, hsplit, hcalls]
      exact if_neg hne
  | assign w e =>
      rw [statTokens, List.length_cons, List.length_cons] at hn
      have hexp := exp_read hrest e hs.2 (by omega : 2 * (tokens e).length ≤ n)
      rw [statTokens, List.cons_append, List.cons_append, stat, if_neg hs.1.2, hexp]
      rfl

/-- Statements begin with a name, which ends the one before. -/
theorem stops_stats (stats : List Stat) : Stops (stats.flatMap statTokens) := by
  match stats with
  | [] => simp [Stops]
  | .call w cs :: rest => simp [Stops, statTokens]
  | .assign w e :: rest => simp [Stops, statTokens]

/-- **Statements that are written are read again.** -/
theorem chunk_read {stats : List Stat} (hok : ∀ s ∈ stats, OkStat s) {n : Nat}
    (hn : 2 * (stats.flatMap statTokens).length ≤ n) :
    chunk n (stats.flatMap statTokens) = some stats := by
  induction stats generalizing n with
  | nil => cases n <;> rfl
  | cons s rest ih =>
      rw [List.forall_mem_cons] at hok
      rw [List.flatMap_cons, List.length_append] at hn
      have hpos : 0 < (statTokens s).length := by cases s <;> simp [statTokens]
      obtain ⟨m, rfl⟩ : ∃ m, n = m + 1 := ⟨n - 1, by omega⟩
      have hstat := stat_read (stops_stats rest) hok.1
        (by omega : 2 * (statTokens s).length ≤ m + 1)
      have hrest := ih hok.2 (by omega : 2 * (rest.flatMap statTokens).length ≤ m)
      have hfirst : chunk (m + 1) (statTokens s ++ rest.flatMap statTokens) =
          (stat m (statTokens s ++ rest.flatMap statTokens)).bind fun p =>
            (chunk m p.2).map (p.1 :: ·) := by
        cases s <;> rfl
      rw [List.flatMap_cons, hfirst, hstat]
      simp [hrest]

/-! ## Reading tokens that were written -/

/-- How strings are written, so that they are read again. -/
structure Quoting where
  quote : String → List Char
  read : ∀ s, ∃ body, quote s = '"' :: body ∧
    ∀ rest, readString '"' (body ++ rest) = some (s.toList, rest)

def spellToken (q : Quoting) : Token → List Char
  | .name w => w.toList
  | .int n => Nat.toDigits 10 n
  | .str s => q.quote s
  | .sym c => if c = ',' then [',', ' '] else [c]

def spell (q : Quoting) (toks : List Token) : List Char := toks.flatMap (spellToken q)

def writeStat (q : Quoting) : Stat → List Char
  | .call w cs => spell q (statTokens (.call w cs)) ++ ['\n']
  | .assign w e => w.toList ++ " = ".toList ++ spell q (tokens e) ++ ['\n']

/-- A chunk as it is written. -/
def write (q : Quoting) (stats : List Stat) : List Char := stats.flatMap (writeStat q)

/-- What follows does not carry on a name or a numeral. -/
def Boundary (rest : List Char) : Prop := ∀ c ∈ rest.head?, isNumeralChar c = false

theorem lex_space {c : Char} (hc : isSpace c = true) (rest : List Char) :
    lex (c :: rest) = lex rest := by
  rw [lex, if_pos hc]

/-- A word ends before the first character that is not of its kind. -/
theorem takeWhile_append_of_all {p : Char → Bool} {word rest : List Char} (h : word.all p = true)
    (hrest : ∀ c ∈ rest.head?, p c = false) :
    (word ++ rest).takeWhile p = word ∧ (word ++ rest).dropWhile p = rest := by
  induction word with
  | nil =>
      cases rest with
      | nil => simp
      | cons c rest => simp [hrest c rfl]
  | cons c word ih =>
      rw [List.all_cons, Bool.and_eq_true] at h
      obtain ⟨htake, hdrop⟩ := ih h.2
      rw [List.cons_append, List.takeWhile_cons_of_pos h.1, List.dropWhile_cons_of_pos h.1, htake]
      exact ⟨rfl, hdrop⟩

/-- A word starts like a name and goes on like one. -/
theorem isWord_iff {w : String} : isWord w = true ↔
    ∃ c rest, w.toList = c :: rest ∧ isNameStart c = true ∧ rest.all isNameChar = true := by
  unfold isWord
  cases w.toList with
  | nil => simp
  | cons c rest => simp

/-- A name is one token where no further character of names follows. -/
theorem lex_name {w : String} (hw : isWord w = true) {rest : List Char} (hrest : Boundary rest) :
    lex (w.toList ++ rest) = (lex rest).map (.name w :: ·) := by
  obtain ⟨c, cs, htext, hstart, hall⟩ := isWord_iff.mp hw
  have hfollow : ∀ d ∈ rest.head?, isNameChar d = false := by
    intro d hd
    have hno := hrest d hd
    rw [isNumeralChar, Bool.or_eq_false_iff] at hno
    exact hno.1
  obtain ⟨htake, hdrop⟩ := takeWhile_append_of_all hall hfollow
  have hspace : isSpace c = false := by
    have hnone : ∀ d ∈ [' ', '\t', '\n', '\r', '\x0b', '\x0c'], isNameStart d = false :=
      List.all_iff_forall_prop.mp (by decide)
    refine Bool.eq_false_iff.mpr fun hblank => ?_
    rw [hnone c (of_decide_eq_true hblank)] at hstart
    cases hstart
  have hquote : ¬ (c = '"' ∨ c = '\'') := by
    rintro (rfl | rfl)
    · cases hstart
    · cases hstart
  have hback : String.ofList (c :: cs) = w := by rw [← htext, String.ofList_toList]
  rw [htext, List.cons_append, lex, if_neg (by simp [hspace]), if_neg hquote, if_pos hstart, htake,
    hdrop, hback]

/-- Digits start neither a name nor a string. -/
theorem other_of_isDigit {c : Char} (hc : c.isDigit = true) :
    isSpace c = false ∧ ¬ (c = '"' ∨ c = '\'') ∧ isNameStart c = false := by
  have hnone : ∀ d ∈ [' ', '\t', '\n', '\r', '\x0b', '\x0c'], d.isDigit = false :=
    List.all_iff_forall_prop.mp (by decide)
  refine ⟨Bool.eq_false_iff.mpr fun hblank => ?_, ?_, Bool.eq_false_iff.mpr fun hstart => ?_⟩
  · rw [hnone c (of_decide_eq_true hblank)] at hc
    cases hc
  · rintro (rfl | rfl)
    · cases hc
    · cases hc
  · rw [isNameStart, Bool.or_eq_true, decide_eq_true_eq] at hstart
    rcases hstart with halpha | rfl
    · simp only [Char.isDigit, Char.isAlpha, Char.isUpper, Char.isLower, Bool.or_eq_true,
        Bool.and_eq_true, decide_eq_true_eq, UInt32.le_iff_toNat_le, ge_iff_le] at hc halpha
      have hnine : ('9' : Char).val.toNat = 57 := rfl
      have hupper : ('A' : Char).val.toNat = 65 := rfl
      have hlower : ('a' : Char).val.toNat = 97 := rfl
      omega
    · cases hc

/-- A number is one token where no further digit follows. -/
theorem lex_int {n : Nat} (hn : n < 2 ^ 63) {rest : List Char} (hrest : Boundary rest) :
    lex (Nat.toDigits 10 n ++ rest) = (lex rest).map (.int n :: ·) := by
  have hdigits : ∀ c ∈ Nat.toDigits 10 n, c.isDigit = true := fun c hc =>
    Nat.isDigit_of_mem_toDigits (by decide) (by decide) hc
  have hvalue : numeral (Nat.toDigits 10 n) = some n := by
    rw [numeral, Nat.ofDigitChars_ten_toDigits, if_pos ⟨List.all_eq_true.mpr hdigits, hn⟩]
  cases htext : Nat.toDigits 10 n with
  | nil => exact absurd htext Nat.toDigits_ne_nil
  | cons c cs =>
      rw [htext] at hdigits hvalue
      have hc := hdigits c List.mem_cons_self
      have hall : cs.all isNumeralChar = true := by
        refine List.all_eq_true.mpr fun d hd => ?_
        simp [isNumeralChar, isNameChar, Char.isAlphanum, hdigits d (List.mem_cons_of_mem _ hd)]
      obtain ⟨htake, hdrop⟩ := takeWhile_append_of_all hall hrest
      obtain ⟨hspace, hquote, hstart⟩ := other_of_isDigit hc
      rw [List.cons_append, lex, if_neg (by simp [hspace]), if_neg hquote,
        if_neg (by simp [hstart]), if_pos hc, htake, hdrop, hvalue]
      rfl

/-- A quoted string is one token, whatever follows. -/
theorem lex_str (q : Quoting) (s : String) (rest : List Char) :
    lex (q.quote s ++ rest) = (lex rest).map (.str s :: ·) := by
  obtain ⟨body, hbody, hread⟩ := q.read s
  rw [hbody, List.cons_append, lex, if_neg (by decide), if_pos (.inl rfl)]
  split
  · rename_i hnone
    rw [hread] at hnone
    cases hnone
  · rename_i text rest' hsome
    rw [hread] at hsome
    obtain ⟨rfl, rfl⟩ := Prod.mk.inj (Option.some.inj hsome)
    rw [String.ofList_toList]

/-- A sign is one token, whatever follows. -/
theorem lex_sign {c : Char} (hc : c ∈ signs) (rest : List Char) :
    lex (c :: rest) = (lex rest).map (.sym c :: ·) := by
  have hother : ∀ d ∈ signs, isSpace d = false ∧ ¬ (d = '"' ∨ d = '\'') ∧
      isNameStart d = false ∧ d.isDigit = false ∧ d ≠ '-' := List.all_iff_forall_prop.mp (by decide)
  obtain ⟨hspace, hquote, hstart, hdigit, hdash⟩ := hother c hc
  rw [lex, if_neg (by simp [hspace]), if_neg hquote, if_neg (by simp [hstart]),
    if_neg (by simp [hdigit]), if_neg hdash, if_pos hc]

/-- A comment reaches to the end of its line. -/
theorem lex_comment {line : List Char} (hline : ∀ c ∈ line, isBreak c = false)
    (hopen : line.head? ≠ some '[') (rest : List Char) :
    lex ('-' :: '-' :: (line ++ '\n' :: rest)) = lex rest := by
  have hcomment : readComment ('-' :: (line ++ '\n' :: rest)) = some ('\n' :: rest) := by
    have hdrop : (line ++ '\n' :: rest).dropWhile (!isBreak ·) = '\n' :: rest := by
      refine (takeWhile_append_of_all (List.all_eq_true.mpr fun c hc => ?_) ?_).2
      · simp [hline c hc]
      · simp [isBreak]
    cases line with
    | nil => rfl
    | cons c line =>
        have hc : c ≠ '[' := fun heq => hopen (heq ▸ rfl)
        rw [List.cons_append] at hdrop ⊢
        unfold readComment
        split
        · rename_i heq
          exact absurd (List.cons.inj (List.cons.inj heq).2).1 hc
        · rename_i heq
          rw [← (List.cons.inj heq).2, hdrop]
        · rename_i hno
          exact absurd rfl (hno _)
  rw [lex, if_neg (by decide), if_neg (by decide), if_neg (by decide), if_neg (by decide),
    if_pos rfl]
  split
  · rename_i hnone
    rw [hcomment] at hnone
    cases hnone
  · rename_i rest' hsome
    rw [hcomment] at hsome
    obtain rfl := Option.some.inj hsome
    exact lex_space (by decide) rest

/-- Tokens are read where what follows allows it. -/
def Lexes (q : Quoting) (toks : List Token) (follow : List Char → Prop) : Prop :=
  ∀ rest, follow rest → lex (spell q toks ++ rest) = (lex rest).map (toks ++ ·)

def Anything (_ : List Char) : Prop := True

section Lexes

variable {q : Quoting} {a b : List Token} {P Q : List Char → Prop}

theorem spell_append : spell q (a ++ b) = spell q a ++ spell q b := List.flatMap_append

/-- Runs of tokens are read in turn, if the second begins with what the first one needs. -/
theorem Lexes.append (ha : Lexes q a P) (hb : Lexes q b Q)
    (h : ∀ rest, Q rest → P (spell q b ++ rest)) : Lexes q (a ++ b) Q := by
  intro rest hrest
  rw [spell_append, List.append_assoc, ha _ (h rest hrest), hb rest hrest, Option.map_map]
  congr 1
  funext toks
  exact (List.append_assoc a b toks).symm

theorem Lexes.mono (h : Lexes q a P) (himp : ∀ rest, Q rest → P rest) : Lexes q a Q :=
  fun rest hrest => h rest (himp rest hrest)

theorem lexes_nil : Lexes q [] P := by
  intro rest _
  cases hlex : lex rest <;> simp [spell, hlex]

/-- A name as a run of its own. -/
theorem lexes_name {w : String} (hw : isWord w = true) : Lexes q [.name w] Boundary := by
  intro rest hrest
  simpa [spell, spellToken] using lex_name hw hrest

/-- A number as a run of its own. -/
theorem lexes_int {n : Nat} (hn : n < 2 ^ 63) : Lexes q [.int n] Boundary := by
  intro rest hrest
  simpa [spell, spellToken] using lex_int hn hrest

/-- A string as a run of its own. -/
theorem lexes_str (s : String) : Lexes q [.str s] Anything := by
  intro rest _
  simpa [spell, spellToken] using lex_str q s rest

/-- A sign as a run of its own. -/
theorem lexes_sign {c : Char} (hc : c ∈ signs) : Lexes q [.sym c] Anything := by
  intro rest _
  by_cases hcomma : c = ','
  · have hspace := lex_space (c := ' ') (by decide) rest
    simpa [spell, spellToken, hcomma, hspace] using lex_sign (c := ',') (by decide) (' ' :: rest)
  · simpa [spell, spellToken, hcomma] using lex_sign hc rest

/-- A sign in front of tokens. -/
theorem Lexes.sign {c : Char} (hc : c ∈ signs) (hb : Lexes q b Q) : Lexes q (.sym c :: b) Q :=
  (lexes_sign hc).append hb fun _ _ => trivial

/-- A name in front of tokens that begin with a sign. -/
theorem Lexes.name {w : String} (hw : IsName w) (hb : Lexes q b Q)
    (h : ∀ rest, Q rest → Boundary (spell q b ++ rest)) : Lexes q (.name w :: b) Q :=
  (lexes_name hw.1).append hb h

/-- A sign ends the word before it. -/
theorem boundary_sign {c : Char} (hc : c ∈ signs) (toks : List Token) (rest : List Char) :
    Boundary (spell q (.sym c :: toks) ++ rest) := by
  have hnone : ∀ d ∈ signs, isNumeralChar d = false := List.all_iff_forall_prop.mp (by decide)
  intro d hd
  have hhead : d = c := by
    by_cases hcomma : c = ','
    · simpa [spell, spellToken, hcomma, eq_comm] using hd
    · simpa [spell, spellToken, hcomma, eq_comm] using hd
  exact hhead ▸ hnone c hc

/-- What follows a field ends the word before it. -/
theorem boundary_fields (fs : List (Option String × Exp)) (rest : List Char) :
    Boundary (spell q (moreFieldTokens fs) ++ rest) := by
  match fs with
  | [] => exact boundary_sign (by decide) _ rest
  | (none, e) :: fs => exact boundary_sign (by decide) _ rest
  | (some w, e) :: fs => exact boundary_sign (by decide) _ rest

/-- What follows an argument ends the word before it. -/
theorem boundary_args (es : List Exp) (rest : List Char) :
    Boundary (spell q (moreArgTokens es) ++ rest) := by
  cases es with
  | nil => exact boundary_sign (by decide) _ rest
  | cons e es => exact boundary_sign (by decide) _ rest

end Lexes

mutual

/-- **An expression that is written is read as its tokens.** -/
theorem lex_exp (q : Quoting) : ∀ e : Exp, Ok e → Lexes q (tokens e) Boundary
  | .bool true, _ => lexes_name (by decide)
  | .bool false, _ => lexes_name (by decide)
  | .int n, hok => lexes_int (by have := hok.1; have := hok.2; omega)
  | .str s, _ => (lexes_str s).mono fun _ _ => trivial
  | .table fs, hok => ((lex_fields q fs hok).sign (by decide)).mono fun _ _ => trivial
  | .chain w cs, hok => by
      refine Lexes.name hok.1 ((lex_calls q cs hok.2).mono fun _ _ => trivial) fun rest hrest => ?_
      match cs with
      | [] => simpa [callTokens, spell] using hrest
      | (none, es) :: cs => exact boundary_sign (by decide) _ rest
      | (some w, es) :: cs => exact boundary_sign (by decide) _ rest

/-- The text of calls is read as their tokens. -/
theorem lex_calls (q : Quoting) :
    ∀ cs : List (Option String × List Exp), OkCalls cs → Lexes q (callTokens cs) Anything
  | [], _ => lexes_nil
  | (none, es) :: cs, hok =>
      ((lex_args q es hok.2.1).append (lex_calls q cs hok.2.2) fun _ _ => trivial).sign (by decide)
  | (some w, es) :: cs, hok => by
      have hargs := (lex_args q es hok.2.1).append (lex_calls q cs hok.2.2) (fun _ _ => trivial)
      have hopen := hargs.sign (c := '(') (by decide)
      exact (hopen.name (hok.1 w rfl) fun rest _ => boundary_sign (by decide) _ rest).sign
        (by decide)

/-- The text of arguments is read as their tokens. -/
theorem lex_args (q : Quoting) : ∀ es : List Exp, OkArgs es → Lexes q (argTokens es) Anything
  | [], _ => lexes_sign (by decide)
  | e :: es, hok => (lex_exp q e hok.1).append (lex_moreArgs q es hok.2) fun rest _ =>
      boundary_args es rest

/-- The text of the arguments behind a first one is read as their tokens. -/
theorem lex_moreArgs (q : Quoting) :
    ∀ es : List Exp, OkArgs es → Lexes q (moreArgTokens es) Anything
  | [], _ => lexes_sign (by decide)
  | e :: es, hok => by
      have hvalue := (lex_exp q e hok.1).append (lex_moreArgs q es hok.2)
        (fun rest _ => boundary_args es rest)
      exact hvalue.sign (by decide)

/-- The text of fields is read as their tokens. -/
theorem lex_fields (q : Quoting) : ∀ fs : List (Option String × Exp), OkFields fs →
    Lexes q (fieldTokens fs) Anything
  | [], _ => lexes_sign (by decide)
  | (none, e) :: fs, hok =>
      (lex_exp q e hok.2.1).append (lex_moreFields q fs hok.2.2) fun rest _ => boundary_fields fs rest
  | (some w, e) :: fs, hok => by
      have hvalue := (lex_exp q e hok.2.1).append (lex_moreFields q fs hok.2.2)
        (fun rest _ => boundary_fields fs rest)
      have hequals := hvalue.sign (c := '=') (by decide)
      exact hequals.name (hok.1 w rfl) fun rest _ => boundary_sign (by decide) _ rest

/-- The text of the fields behind a first one is read as their tokens. -/
theorem lex_moreFields (q : Quoting) : ∀ fs : List (Option String × Exp), OkFields fs →
    Lexes q (moreFieldTokens fs) Anything
  | [], _ => lexes_sign (by decide)
  | (none, e) :: fs, hok =>
      ((lex_exp q e hok.2.1).append (lex_moreFields q fs hok.2.2)
        (fun rest _ => boundary_fields fs rest)).sign (by decide)
  | (some w, e) :: fs, hok => by
      have hvalue := (lex_exp q e hok.2.1).append (lex_moreFields q fs hok.2.2)
        (fun rest _ => boundary_fields fs rest)
      have hequals := hvalue.sign (c := '=') (by decide)
      exact (hequals.name (hok.1 w rfl) fun rest _ => boundary_sign (by decide) _ rest).sign
        (by decide)

end

/-- A line break ends a word. -/
theorem boundary_break (rest : List Char) : Boundary ('\n' :: rest) := by
  intro c hc
  obtain rfl : '\n' = c := Option.some.inj hc
  rfl

/-- A statement is read with the line break behind it. -/
theorem lex_stat (q : Quoting) {s : Stat} (hs : OkStat s) (rest : List Char) :
    lex (writeStat q s ++ rest) = (lex rest).map (statTokens s ++ ·) := by
  have hbreak := lex_space (c := '\n') (by decide) rest
  cases s with
  | call w cs =>
      have hcall : Ok (.chain w cs) := ⟨hs.1, hs.2.1⟩
      have hlex := lex_exp q (.chain w cs) hcall ('\n' :: rest) (boundary_break rest)
      rw [hbreak] at hlex
      rw [writeStat, List.append_assoc]
      exact hlex
  | assign w e =>
      have hexp := lex_exp q e hs.2 ('\n' :: rest) (boundary_break rest)
      have hequals : lex (" = ".toList ++ (spell q (tokens e) ++ '\n' :: rest)) =
          (lex rest).map fun toks => .sym '=' :: (tokens e ++ toks) := by
        show lex (' ' :: '=' :: ' ' :: (spell q (tokens e) ++ '\n' :: rest)) = _
        rw [lex_space (by decide), lex_sign (by decide), lex_space (by decide), hexp, hbreak,
          Option.map_map]
        rfl
      have hblank : Boundary (" = ".toList ++ (spell q (tokens e) ++ '\n' :: rest)) := by
        intro c hc
        obtain rfl : ' ' = c := Option.some.inj hc
        rfl
      rw [writeStat, List.append_assoc, List.append_assoc, List.append_assoc]
      rw [List.singleton_append, lex_name hs.1.1 hblank, hequals, Option.map_map]
      rfl

/-- A written chunk is read as the tokens of its statements. -/
theorem lex_write (q : Quoting) {stats : List Stat} (hok : ∀ s ∈ stats, OkStat s) :
    lex (write q stats) = some (stats.flatMap statTokens) := by
  induction stats with
  | nil => rw [write, List.flatMap_nil, lex]; rfl
  | cons s rest ih =>
      rw [List.forall_mem_cons] at hok
      have hrest := ih hok.2
      rw [write] at hrest ⊢
      rw [List.flatMap_cons, lex_stat q hok.1, hrest]
      rfl

/-- **A chunk that is written behind a comment is read again.** -/
theorem parse_write (q : Quoting) {line : List Char} (hline : ∀ c ∈ line, isBreak c = false)
    (hopen : line.head? ≠ some '[') {stats : List Stat} (hok : ∀ s ∈ stats, OkStat s) :
    parse (String.ofList ("--".toList ++ (line ++ '\n' :: write q stats))) = some stats := by
  have htext : "--".toList ++ (line ++ '\n' :: write q stats) =
      '-' :: '-' :: (line ++ '\n' :: write q stats) := rfl
  rw [parse, String.toList_ofList, htext, lex_comment hline hopen, lex_write q hok]
  exact chunk_read hok (Nat.le_refl _)

end LuaText
