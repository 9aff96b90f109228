import Mathlib.Data.List.TakeDrop
/-!
# Lines of a shell script

The part of the shell's grammar in which nothing is expanded: words between blanks, with single
and double quotes, comments, assignments and simple commands.  Everything else (expansions,
operators, escapes, the byte zero) is not read.

* `words_quote` — a text that is quoted is read as one word again, whatever it is.
-/

namespace ShellText

/-! ## Words -/

/-- A character that stands for itself outside quotation marks, in a word and in a value. -/
def isPlain (c : Char) : Bool :=
  ('a' ≤ c && c ≤ 'z') || ('A' ≤ c && c ≤ 'Z') || ('0' ≤ c && c ≤ '9') ||
    c ∈ ['_', '@', '%', '+', '=', ':', ',', '.', '/', '-']

/-- A character that keeps a meaning inside double quotes. -/
def isLive (c : Char) : Bool := c ∈ ['$', '\x60', '\\', '!']

inductive Mode where
  | bare
  | single
  | double
  deriving DecidableEq, Repr

/-- The words up to the end of the line, and what follows it; `word` is the one that has begun. -/
def words : Mode → Option (List Char) → List Char → Option (List (List Char) × List Char)
  | .bare, word, [] => some (word.toList, [])
  | .single, _, [] => none
  | .double, _, [] => none
  | .bare, word, c :: rest =>
      if c = '\n' then some (word.toList, rest)
      else if c = ' ' then
        (words .bare none rest).map fun (more, left) => (word.toList ++ more, left)
      else if c = '\'' then words .single (some (word.getD [])) rest
      else if c = '"' then words .double (some (word.getD [])) rest
      else if isPlain c then words .bare (some (word.getD [] ++ [c])) rest
      else none
  | .single, word, c :: rest =>
      if c = '\x00' then none
      else if c = '\'' then words .bare word rest
      else words .single (some (word.getD [] ++ [c])) rest
  | .double, word, c :: rest =>
      if c = '\x00' ∨ isLive c then none
      else if c = '"' then words .bare word rest
      else words .double (some (word.getD [] ++ [c])) rest

/-- A text between single quotes; a single quote leaves them for double ones. -/
def escape (s : List Char) : List Char :=
  s.flatMap fun c => if c = '\'' then "'\"'\"'".toList else [c]

/-- The usual way to write any text as one word. -/
def quote (s : List Char) : List Char :=
  if s = [] then "''".toList
  else if s.all isPlain then s
  else '\'' :: escape s ++ ['\'']

variable {s word rest : List Char}

/-- A plain character is neither a blank, nor a line break, nor a quote. -/
theorem not_special_of_isPlain {c : Char} (h : isPlain c = true) :
    c ≠ '\n' ∧ c ≠ ' ' ∧ c ≠ '\'' ∧ c ≠ '"' := by
  refine ⟨?_, ?_, ?_, ?_⟩ <;> rintro rfl <;> exact absurd h (by decide)

/-- A plain character goes on with the word. -/
theorem words_plain_char {c : Char} (h : isPlain c = true) (o : Option (List Char))
    (rest : List Char) :
    words .bare o (c :: rest) = words .bare (some (o.getD [] ++ [c])) rest := by
  obtain ⟨hline, hblank, hsingle, hdouble⟩ := not_special_of_isPlain h
  rw [words, if_neg hline, if_neg hblank, if_neg hsingle, if_neg hdouble, if_pos h]

/-- Plain characters up to the line break belong to the word. -/
theorem words_plain (h : s.all isPlain = true) (word : List Char) :
    words .bare (some word) (s ++ '\n' :: rest) = some ([word ++ s], rest) := by
  induction s generalizing word with
  | nil =>
      rw [List.nil_append, List.append_nil, words, if_pos rfl]
      rfl
  | cons c s ih =>
      obtain ⟨hc, hs⟩ := Bool.and_eq_true_iff.mp h
      rw [List.cons_append, words_plain_char hc, ih hs]
      simp

/-- Out of the single quotes, one of them, and back. -/
theorem words_single_quote :
    words .single (some word) ("'\"'\"'".toList ++ rest) =
      words .single (some (word ++ ['\''])) rest := by
  rfl

/-- An escaped text is one word in quotes. -/
theorem words_single (h : '\x00' ∉ s) (word : List Char) :
    words .single (some word) (escape s ++ '\'' :: '\n' :: rest) =
      some ([word ++ s], rest) := by
  induction s generalizing word with
  | nil =>
      rw [List.append_nil]
      rfl
  | cons c s ih =>
      obtain ⟨hc, hs⟩ := not_or.mp fun hmem => h (List.mem_cons.mpr hmem)
      rw [escape, List.flatMap_cons, List.append_assoc]
      by_cases hquote : c = '\''
      · subst hquote
        rw [if_pos rfl, words_single_quote]
        exact (ih hs _).trans (by simp)
      · rw [if_neg hquote, List.singleton_append, words, if_neg (Ne.symm hc), if_neg hquote]
        exact (ih hs _).trans (by simp)

/-- **A quoted text is one word again.** -/
theorem words_quote (h : '\x00' ∉ s) :
    words .bare none (quote s ++ '\n' :: rest) = some ([s], rest) := by
  unfold quote
  split
  · next hs =>
      subst hs
      rfl
  · next hs =>
      split
      · next hplain =>
          obtain ⟨c, more, rfl⟩ := List.exists_cons_of_ne_nil hs
          obtain ⟨hc, hmore⟩ := Bool.and_eq_true_iff.mp hplain
          rw [List.cons_append, words_plain_char hc, words_plain hmore]
          rfl
      · rw [List.append_assoc, List.cons_append]
        exact words_single h []

/-! ## Lines -/

inductive Line where
  | blank
  | comment (text : List Char)
  | assign (name value : List Char)
  | command (words : List (List Char))
  deriving DecidableEq, Repr

def isNameStart (c : Char) : Bool :=
  ('a' ≤ c && c ≤ 'z') || ('A' ≤ c && c ≤ 'Z') || c = '_'

def isNameChar (c : Char) : Bool := isNameStart c || ('0' ≤ c && c ≤ '9')

/-- What is left of a line that begins with a name and `=`. -/
def assignment? (text : List Char) : Option (List Char × List Char) :=
  match text.span isNameChar with
  | (c :: name, '=' :: rest) => if isNameStart c then some (c :: name, rest) else none
  | _ => none

/-- The end of a comment. -/
def restOfLine : List Char → List Char × List Char
  | [] => ([], [])
  | c :: rest =>
      if c = '\n' then ([], rest) else (c :: (restOfLine rest).1, (restOfLine rest).2)

def readLine (text : List Char) : Option (Line × List Char) :=
  match text with
  | [] => none
  | c :: rest =>
      if c = '\n' then some (.blank, rest)
      else if c = '#' then some (.comment (restOfLine rest).1, (restOfLine rest).2)
      else
        match assignment? text with
        | some (name, value) =>
            match words .bare none value with
            | some ([], left) => some (.assign name [], left)
            | some ([v], left) => some (.assign name v, left)
            | _ => none
        | none => (words .bare none text).map fun (ws, left) => (.command ws, left)

/-- The first `n` lines. -/
def readLines : Nat → List Char → Option (List Line × List Char)
  | 0, text => some ([], text)
  | n + 1, text => do
      let (line, rest) ← readLine text
      let (lines, left) ← readLines n rest
      return (line :: lines, left)

/-- A line ends at its line break. -/
theorem restOfLine_line (h : '\n' ∉ s) : restOfLine (s ++ '\n' :: rest) = (s, rest) := by
  induction s with
  | nil => rfl
  | cons c s ih =>
      obtain ⟨hc, hs⟩ := not_or.mp fun hmem => h (List.mem_cons.mpr hmem)
      rw [List.cons_append, restOfLine, if_neg (Ne.symm hc), ih hs]

theorem readLine_comment (h : '\n' ∉ s) :
    readLine ('#' :: (s ++ '\n' :: rest)) = some (.comment s, rest) := by
  rw [readLine, if_neg (by decide), if_pos rfl, restOfLine_line h]

/-- An assignment is read as one. -/
theorem readLine_assign {c : Char} {name value : List Char} (hc : isNameStart c = true)
    (hname : name.all isNameChar = true) (h : '\x00' ∉ value) :
    readLine (c :: name ++ '=' :: (quote value ++ '\n' :: rest)) =
      some (.assign (c :: name) value, rest) := by
  have hfirst : isNameChar c = true := by rw [isNameChar, hc, Bool.true_or]
  have hline : c ≠ '\n' ∧ c ≠ '#' := by
    constructor <;> rintro rfl <;> exact absurd hc (by decide)
  have hall : ∀ d ∈ c :: name, isNameChar d = true := by
    intro d hd
    rcases List.mem_cons.mp hd with rfl | hd
    · exact hfirst
    · exact List.all_eq_true.mp hname d hd
  have hspan : (c :: (name ++ '=' :: (quote value ++ '\n' :: rest))).span isNameChar =
      (c :: name, '=' :: (quote value ++ '\n' :: rest)) := by
    rw [← List.cons_append, List.span_eq_takeWhile_dropWhile, List.takeWhile_append_of_pos hall,
      List.dropWhile_append_of_pos hall, List.takeWhile_cons_of_neg (by decide),
      List.dropWhile_cons_of_neg (by decide), List.append_nil]
  have hassign : assignment? (c :: (name ++ '=' :: (quote value ++ '\n' :: rest))) =
      some (c :: name, quote value ++ '\n' :: rest) := by
    rw [assignment?, hspan]
    exact if_pos hc
  rw [List.cons_append, readLine, if_neg hline.1, if_neg hline.2, hassign]
  dsimp only
  rw [words_quote h]

/-- Lines are read one by one. -/
theorem readLines_succ {n : Nat} {text : List Char} {line : Line}
    (h : readLine text = some (line, rest)) :
    readLines (n + 1) text = (readLines n rest).map fun p => (line :: p.1, p.2) := by
  rw [readLines, h, Option.bind_eq_bind, Option.bind_some]
  dsimp only
  cases readLines n rest with
  | none => rfl
  | some p => rfl

end ShellText
