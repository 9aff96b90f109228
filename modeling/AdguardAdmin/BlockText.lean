import Mathlib
/-!
# Texts of lines and blocks

A configuration language of lines and blocks: words between blanks, strings in double quotes in
which a backslash takes the next character as it is, comments from `#` or `!` to the end of the
line, and braces around the lines of a block, behind the words that head it.

* `parse_printAll_iff` — what is printed is read as what it is exactly if no word has a character
  that it may not have.
-/

namespace BlockText

/-! ## Words, lines and blocks -/

inductive Word where
  | plain (text : String)
  | quoted (text : String)
  deriving DecidableEq, Repr

inductive Item where
  | line (words : List Word)
  | block (head : List Word) (body : List Item)
  deriving Repr

/-! ## Reading -/

inductive Token where
  | word (w : Word)
  | opening
  | closing
  | newline
  deriving DecidableEq, Repr

def isBlank (c : Char) : Bool := c ∈ [' ', '\t', '\r', '\x0b', '\x0c']

/-- The characters of a word without quotes. -/
def isPlain (c : Char) : Bool :=
  !isBlank c && c ∉ ['\n', '#', '!', '"', '\x7b', '\x7d', '\\']

/-- What a reader is in the middle of. -/
inductive Mode where
  | between
  | comment
  | plain (text : List Char)
  | quoted (text : List Char)
  | escaped (text : List Char)
  deriving DecidableEq, Repr

/-- What a character says outside of words: the mode behind it and the tokens that it ends. -/
def start (c : Char) : Option (Mode × List Token) :=
  if c = '\n' then some (.between, [.newline])
  else if isBlank c then some (.between, [])
  else if c = '#' ∨ c = '!' then some (.comment, [])
  else if c = '"' then some (.quoted [], [])
  else if c = '\x7b' then some (.between, [.opening])
  else if c = '\x7d' then some (.between, [.closing])
  else if c = '\\' then none
  else some (.plain [c], [])

def step : Mode → Char → Option (Mode × List Token)
  | .between, c => start c
  | .comment, c => some (if c = '\n' then (.between, [.newline]) else (.comment, []))
  | .plain text, c =>
      if isPlain c then some (.plain (text ++ [c]), [])
      else (start c).map fun (next, out) => (next, .word (.plain (String.ofList text)) :: out)
  | .quoted text, c =>
      if c = '\n' then none
      else if c = '"' then some (.between, [.word (.quoted (String.ofList text))])
      else if c = '\\' then some (.escaped text, [])
      else some (.quoted (text ++ [c]), [])
  | .escaped text, c => if c = '\n' then none else some (.quoted (text ++ [c]), [])

/-- A string must end before the text does. -/
def finish : Mode → Option (List Token)
  | .between | .comment => some []
  | .plain text => some [.word (.plain (String.ofList text))]
  | .quoted _ | .escaped _ => none

def lex (mode : Mode) : List Char → Option (List Token)
  | [] => finish mode
  | c :: cs => (step mode c).bind fun (next, out) => (lex next cs).map (out ++ ·)

/-- The head of a block that is open, and the items before it. -/
abbrev Frame := List Word × List Item

def endLine (items : List Item) (ws : List Word) : List Item :=
  if ws = [] then items else items ++ [.line ws]

/-- The items of the innermost open block and the words of the current line are kept. -/
def build : List Frame → List Item → List Word → List Token → Option (List Item)
  | [], items, ws, [] => some (endLine items ws)
  | _ :: _, _, _, [] => none
  | frames, items, ws, .word w :: ts => build frames items (ws ++ [w]) ts
  | frames, items, ws, .newline :: ts => build frames (endLine items ws) [] ts
  | frames, items, ws, .opening :: ts =>
      if ws = [] then none else build ((ws, items) :: frames) [] [] ts
  | [], _, _, .closing :: _ => none
  | (head, before) :: frames, items, ws, .closing :: ts =>
      build frames (before ++ [.block head (endLine items ws)]) [] ts

def parse (s : String) : Option (List Item) := (lex .between s.toList).bind (build [] [] [])

/-! ## Printing -/

def Word.text : Word → String
  | .plain text => text
  | .quoted text => "\"" ++ text ++ "\""

def lineText : List Word → String
  | [] => ""
  | [w] => w.text
  | w :: ws => w.text ++ " " ++ lineText ws

mutual

def Item.print (indent : String) : Item → String
  | .line ws => indent ++ lineText ws ++ "\n"
  | .block head body =>
      indent ++ lineText head ++ " \x7b\n" ++ printAll (indent ++ "  ") body ++ indent ++ "\x7d\n"

def printAll (indent : String) : List Item → String
  | [] => ""
  | item :: items => item.print indent ++ printAll indent items

end

mutual

/-- The words of an item, in order. -/
def Item.words : Item → List Word
  | .line ws => ws
  | .block head body => head ++ wordsOf body

def wordsOf : List Item → List Word
  | [] => []
  | item :: items => item.words ++ wordsOf items

end

mutual

/-- Every line has a word. -/
def Item.proper : Item → Bool
  | .line ws => ws ≠ []
  | .block head body => head ≠ [] ∧ areProper body

def areProper : List Item → Bool
  | [] => true
  | item :: items => item.proper && areProper items

end

/-- Items are proper one by one. -/
theorem areProper_eq_all (items : List Item) : areProper items = items.all Item.proper := by
  induction items with
  | nil => rfl
  | cons item items ih => rw [areProper, List.all_cons, ih]

/-- A word that is read as what it is. -/
def Word.Readable : Word → Prop
  | .plain text => text ≠ "" ∧ ∀ c ∈ text.toList, isPlain c = true
  | .quoted text => ∀ c ∈ text.toList, c ≠ '\n' ∧ c ≠ '"' ∧ c ≠ '\\'

instance Word.decidableReadable (w : Word) : Decidable w.Readable :=
  match w with
  | .plain text =>
      @instDecidableAnd _ _ (inferInstanceAs (Decidable (text ≠ ""))) (List.decidableBAll _ _)
  | .quoted text => List.decidableBAll _ text.toList

/-- A quoted text is readable exactly when its parts are. -/
theorem readable_quoted_append {s t : String} : (Word.quoted (s ++ t)).Readable ↔
    (Word.quoted s).Readable ∧ (Word.quoted t).Readable := by
  simp only [Word.Readable, String.toList_append, List.forall_mem_append]

/-- Every word of the items is read as what it is. -/
def Reads (items : List Item) : Prop := ∀ w ∈ wordsOf items, w.Readable

instance decidableReads (items : List Item) : Decidable (Reads items) :=
  List.decidableBAll _ (wordsOf items)

theorem reads_nil : Reads [] := List.forall_mem_nil _

/-- Items are read back one by one. -/
theorem reads_cons {item : Item} {items : List Item} :
    Reads (item :: items) ↔ (∀ w ∈ item.words, w.Readable) ∧ Reads items :=
  List.forall_mem_append

/-- Items are read back in two parts exactly when each part is. -/
theorem reads_append {items items' : List Item} :
    Reads (items ++ items') ↔ Reads items ∧ Reads items' := by
  induction items with
  | nil => simp [reads_nil]
  | cons item items ih => rw [List.cons_append, reads_cons, ih, reads_cons, and_assoc]

/-- Items are read back exactly when each of their words is readable. -/
theorem reads_iff {items : List Item} :
    Reads items ↔ ∀ item ∈ items, ∀ w ∈ item.words, w.Readable := by
  induction items with
  | nil => simp [reads_nil]
  | cons item items ih => rw [reads_cons, ih, List.forall_mem_cons]

/-- The words of a block are those of its head and of its body. -/
theorem readable_block {head : List Word} {body : List Item} :
    (∀ w ∈ (Item.block head body).words, w.Readable) ↔
      (∀ w ∈ head, w.Readable) ∧ Reads body :=
  List.forall_mem_append

/-! ## What is printed is read -/

mutual

def Item.tokens : Item → List Token
  | .line ws => ws.map .word ++ [.newline]
  | .block head body => head.map .word ++ .opening :: .newline :: (tokensOf body ++
      [.closing, .newline])

def tokensOf : List Item → List Token
  | [] => []
  | item :: items => item.tokens ++ tokensOf items

end

/-- Plain characters are those without a meaning of their own. -/
theorem isPlain_iff {c : Char} : isPlain c = true ↔
    isBlank c = false ∧ c ≠ '\n' ∧ c ≠ '#' ∧ c ≠ '!' ∧ c ≠ '"' ∧ c ≠ '\x7b' ∧ c ≠ '\x7d' ∧
      c ≠ '\\' := by
  simp [isPlain]

section Reading

variable {rest : List Char}

theorem start_of_isPlain {c : Char} (h : isPlain c = true) : start c = some (.plain [c], []) := by
  obtain ⟨hblank, hnewline, hhash, hbang, hquote, hopen, hclose, hback⟩ := isPlain_iff.mp h
  simp [start, hblank, hnewline, hhash, hbang, hquote, hopen, hclose, hback]

/-- A character that ends no token. -/
theorem lex_silent {mode next : Mode} {c : Char} (h : step mode c = some (next, [])) :
    lex mode (c :: rest) = lex next rest := by
  simp [lex, h]

/-- Plain characters go on with a plain word. -/
theorem lex_plain {cs text : List Char} (h : ∀ c ∈ cs, isPlain c = true) :
    lex (.plain text) (cs ++ rest) = lex (.plain (text ++ cs)) rest := by
  induction cs generalizing text with
  | nil => simp
  | cons c cs ih =>
      obtain ⟨hc, hcs⟩ := List.forall_mem_cons.mp h
      have hstep : step (.plain text) c = some (.plain (text ++ [c]), []) := by
        rw [step, if_pos hc]
      rw [List.cons_append, lex_silent hstep, ih hcs, List.append_assoc]
      rfl

/-- Characters inside of quotes go on with a quoted word. -/
theorem lex_quoted {cs text : List Char}
    (h : ∀ c ∈ cs, c ≠ '\n' ∧ c ≠ '"' ∧ c ≠ '\\') :
    lex (.quoted text) (cs ++ rest) = lex (.quoted (text ++ cs)) rest := by
  induction cs generalizing text with
  | nil => simp
  | cons c cs ih =>
      obtain ⟨⟨hnewline, hquote, hback⟩, hcs⟩ := List.forall_mem_cons.mp h
      have hstep : step (.quoted text) c = some (.quoted (text ++ [c]), []) := by
        rw [step, if_neg hnewline, if_neg hquote, if_neg hback]
      rw [List.cons_append, lex_silent hstep, ih hcs, List.append_assoc]
      rfl

/-- A word ends before the first character that no word without quotes has. -/
theorem lex_plain_stop {text : List Char} {stop : Char} (hstop : isPlain stop = false) :
    lex (.plain text) (stop :: rest) =
      (lex .between (stop :: rest)).map (.word (.plain (String.ofList text)) :: ·) := by
  have hnot : ¬ isPlain stop = true := by simp [hstop]
  simp only [lex, step, if_neg hnot]
  cases start stop with
  | none => rfl
  | some found => simp [Function.comp_def]

/-- A quote ends the quoted word. -/
theorem lex_quoted_end {text : List Char} :
    lex (.quoted text) ('"' :: rest) =
      (lex .between rest).map (.word (.quoted (String.ofList text)) :: ·) := by
  simp [lex, step]

/-- A word is read up to the blank or the end of the line behind it. -/
theorem lex_word {w : Word} (h : w.Readable) {stop : Char} (hstop : isPlain stop = false) :
    lex .between (w.text.toList ++ stop :: rest) =
      (lex .between (stop :: rest)).map (.word w :: ·) := by
  cases w with
  | plain text =>
      obtain ⟨hne, hplain⟩ := h
      cases hchars : text.toList with
      | nil => exact absurd (String.toList_inj.mp hchars) hne
      | cons c cs =>
          rw [hchars] at hplain
          obtain ⟨hc, hcs⟩ := List.forall_mem_cons.mp hplain
          have hfirst : lex .between (c :: (cs ++ stop :: rest)) =
              lex (.plain [c]) (cs ++ stop :: rest) := by
            exact lex_silent (start_of_isPlain hc)
          rw [Word.text, hchars, List.cons_append, hfirst, lex_plain hcs, lex_plain_stop hstop,
            List.singleton_append, ← hchars, String.ofList_toList]
  | quoted text =>
      have hchars : (Word.quoted text).text.toList = '"' :: (text.toList ++ ['"']) := by
        simp [Word.text]
      have hfirst : ∀ cs, lex .between ('"' :: cs) = lex (.quoted []) cs :=
        fun cs => lex_silent rfl
      rw [hchars, List.cons_append, hfirst, List.append_assoc, lex_quoted h, List.nil_append,
        List.singleton_append, lex_quoted_end, String.ofList_toList]

/-- The words of a line are read up to what ends the line. -/
theorem lex_lineText {ws : List Word} (h : ∀ w ∈ ws, w.Readable) (hne : ws ≠ []) {stop : Char}
    (hstop : isPlain stop = false) :
    lex .between ((lineText ws).toList ++ stop :: rest) =
      (lex .between (stop :: rest)).map (ws.map .word ++ ·) := by
  induction ws with
  | nil => exact absurd rfl hne
  | cons w ws ih =>
      obtain ⟨hw, hws⟩ := List.forall_mem_cons.mp h
      cases ws with
      | nil => exact lex_word hw hstop
      | cons w' ws =>
          have hline : (lineText (w :: w' :: ws)).toList ++ stop :: rest =
              w.text.toList ++ ' ' :: ((lineText (w' :: ws)).toList ++ stop :: rest) := by
            simp [lineText]
          have hskip : ∀ cs, lex .between (' ' :: cs) = lex .between cs :=
            fun cs => lex_silent rfl
          rw [hline, lex_word hw (by decide), hskip, ih hws (List.cons_ne_nil _ _),
            Option.map_map]
          rfl

/-- Indentation is passed over. -/
theorem lex_indent {indent : String} (h : ∀ c ∈ indent.toList, c = ' ') :
    lex .between (indent.toList ++ rest) = lex .between rest := by
  generalize indent.toList = cs at h
  induction cs with
  | nil => rfl
  | cons c cs ih =>
      obtain ⟨rfl, hcs⟩ := List.forall_mem_cons.mp h
      exact (lex_silent rfl).trans (ih hcs)

theorem no_indent : ∀ c ∈ ("" : String).toList, c = ' ' := List.forall_mem_nil _

/-- Deeper levels are indented with spaces too. -/
theorem deeper {indent : String} (h : ∀ c ∈ indent.toList, c = ' ') :
    ∀ c ∈ (indent ++ "  ").toList, c = ' ' := by
  intro c hc
  rw [String.toList_append, List.mem_append] at hc
  rcases hc with hc | hc
  · exact h c hc
  · simpa using hc

mutual

/-- An item that is printed is read as its tokens, at each depth. -/
theorem lex_print (item : Item) {indent : String} (hindent : ∀ c ∈ indent.toList, c = ' ')
    (hproper : item.proper = true) (h : ∀ w ∈ item.words, w.Readable) (rest : List Char) :
    lex .between ((item.print indent).toList ++ rest) =
      (lex .between rest).map (item.tokens ++ ·) := by
  match item with
  | .line ws =>
      have hne : ws ≠ [] := by simpa [Item.proper] using hproper
      have hwords : ∀ w ∈ ws, w.Readable := h
      have hchars : ((Item.line ws).print indent).toList ++ rest =
          indent.toList ++ ((lineText ws).toList ++ '\n' :: rest) := by
        simp [Item.print]
      have hend : lex .between ('\n' :: rest) = (lex .between rest).map (.newline :: ·) := rfl
      rw [hchars, lex_indent hindent, lex_lineText hwords hne rfl, hend, Option.map_map]
      simp [Item.tokens, Function.comp_def]
  | .block head body =>
      have hproper' : head ≠ [] ∧ areProper body = true := by simpa [Item.proper] using hproper
      obtain ⟨hhead, hbody⟩ := readable_block.mp h
      have hchars : ((Item.block head body).print indent).toList ++ rest =
          indent.toList ++ ((lineText head).toList ++ ' ' :: '\x7b' :: '\n' ::
            ((printAll (indent ++ "  ") body).toList ++
              (indent.toList ++ '\x7d' :: '\n' :: rest))) := by
        simp [Item.print]
      have hopen : ∀ cs, lex .between (' ' :: '\x7b' :: '\n' :: cs) =
          (lex .between cs).map (.opening :: .newline :: ·) := by
        intro cs
        simp [lex, step, start, isBlank, Function.comp_def]
      have hclose : lex .between ('\x7d' :: '\n' :: rest) =
          (lex .between rest).map (.closing :: .newline :: ·) := by
        simp [lex, step, start, isBlank, Function.comp_def]
      rw [hchars, lex_indent hindent, lex_lineText hhead hproper'.1 rfl, hopen,
        lex_printAll body (deeper hindent) hproper'.2 hbody, lex_indent hindent, hclose]
      simp [Item.tokens, Function.comp_def]

/-- Lexing the print of several items gives their tokens. -/
theorem lex_printAll (items : List Item) {indent : String}
    (hindent : ∀ c ∈ indent.toList, c = ' ') (hproper : areProper items = true)
    (h : Reads items) (rest : List Char) :
    lex .between ((printAll indent items).toList ++ rest) =
      (lex .between rest).map (tokensOf items ++ ·) := by
  match items with
  | [] => simp [printAll, tokensOf]
  | item :: items =>
      have hproper' : item.proper = true ∧ areProper items = true := by
        simpa [areProper] using hproper
      obtain ⟨hitem, hitems⟩ := reads_cons.mp h
      rw [printAll, String.toList_append, List.append_assoc, lex_print item hindent hproper'.1
        hitem, lex_printAll items hindent hproper'.2 hitems, Option.map_map]
      simp [tokensOf, Function.comp_def]

end

end Reading

/-! ## What is read is put together -/

section Building

variable {frames : List Frame} {items : List Item} {ws : List Word} {ts : List Token}

/-- A word joins the words of its line. -/
theorem build_word (w : Word) :
    build frames items ws (.word w :: ts) = build frames items (ws ++ [w]) ts := by
  cases frames <;> rfl

/-- A line break makes an item of the words before it. -/
theorem build_newline :
    build frames items ws (.newline :: ts) = build frames (endLine items ws) [] ts := by
  cases frames <;> rfl

/-- An opening brace starts a block, headed by the words of its line. -/
theorem build_opening (h : ws ≠ []) :
    build frames items ws (.opening :: ts) = build ((ws, items) :: frames) [] [] ts := by
  cases frames <;> simp [build, h]

/-- A closing brace puts the block behind what was before it. -/
theorem build_closing {head : List Word} {before : List Item} :
    build ((head, before) :: frames) items ws (.closing :: ts) =
      build frames (before ++ [.block head (endLine items ws)]) [] ts := rfl

/-- Words join those of the line in their order. -/
theorem build_words (us : List Word) :
    build frames items ws (us.map .word ++ ts) = build frames items (ws ++ us) ts := by
  induction us generalizing ws with
  | nil => simp
  | cons u us ih =>
      rw [List.map_cons, List.cons_append, build_word, ih, List.append_assoc]
      rfl

mutual

/-- The tokens of an item are put together to it. -/
theorem build_tokens (item : Item) (hproper : item.proper = true) (frames : List Frame)
    (items : List Item) (ts : List Token) :
    build frames items [] (item.tokens ++ ts) = build frames (items ++ [item]) [] ts := by
  match item with
  | .line ws =>
      have hne : ws ≠ [] := by simpa [Item.proper] using hproper
      rw [Item.tokens, List.append_assoc, build_words, List.nil_append, List.singleton_append,
        build_newline, endLine, if_neg hne]
  | .block head body =>
      have hproper' : head ≠ [] ∧ areProper body = true := by simpa [Item.proper] using hproper
      have htokens : (Item.block head body).tokens ++ ts = head.map .word ++
          .opening :: .newline :: (tokensOf body ++ .closing :: .newline :: ts) := by
        simp [Item.tokens]
      have hnone : ∀ items : List Item, endLine items [] = items := fun _ => rfl
      rw [htokens, build_words, List.nil_append, build_opening hproper'.1, build_newline, hnone,
        build_tokensOf body hproper'.2, build_closing, build_newline, hnone, hnone, List.nil_append]

/-- Building from the tokens of items gives those items. -/
theorem build_tokensOf (body : List Item) (hproper : areProper body = true) (frames : List Frame)
    (items : List Item) (ts : List Token) :
    build frames items [] (tokensOf body ++ ts) = build frames (items ++ body) [] ts := by
  match body with
  | [] => simp [tokensOf]
  | item :: body =>
      have hproper' : item.proper = true ∧ areProper body = true := by
        simpa [areProper] using hproper
      rw [tokensOf, List.append_assoc, build_tokens item hproper'.1,
        build_tokensOf body hproper'.2, List.append_assoc]
      rfl

end

end Building

/-! ## What is read is what was printed -/

def Word.value : Word → String
  | .plain text | .quoted text => text

/-- What a reader can make of any text: a string may not go over a line. -/
def Word.Sound : Word → Prop
  | .plain text => text ≠ "" ∧ ∀ c ∈ text.toList, isPlain c = true
  | .quoted text => '\n' ∉ text.toList

def Mode.Sound : Mode → Prop
  | .between | .comment => True
  | .plain text => text ≠ [] ∧ ∀ c ∈ text, isPlain c = true
  | .quoted text | .escaped text => '\n' ∉ text

/-- The backslashes that it takes to write a text between quotes. -/
def escapes (text : List Char) : Nat := 2 * text.count '\\' + text.count '"'

def escapesOf (ws : List Word) : Nat := (ws.map fun w => escapes w.value.toList).sum

/-- The backslashes that were read for the word that is not at its end. -/
def Mode.escapes : Mode → Nat
  | .between | .comment => 0
  | .plain text | .quoted text => BlockText.escapes text
  | .escaped text => BlockText.escapes text + 1

def Token.words : Token → List Word
  | .word w => [w]
  | .opening | .closing | .newline => []

section Sound

variable {mode next : Mode} {c : Char} {out ts : List Token}

/-- What a character does where a word may begin. -/
theorem start_cases (h : start c = some (next, out)) :
    (∀ t ∈ out, t.words = []) ∧ (next = .between ∨ next = .comment ∨ next = .quoted [] ∨
      isPlain c = true ∧ next = .plain [c]) := by
  unfold start at h
  split_ifs at h with hnewline hblank hcomment hquote hopen hclose hback <;>
    obtain ⟨rfl, rfl⟩ := Prod.mk.inj (Option.some.inj h)
  · simp [Token.words]
  · simp
  · simp
  · simp
  · simp [Token.words]
  · simp [Token.words]
  · have hplain : isPlain c = true := isPlain_iff.mpr ⟨by simpa using hblank, hnewline,
      fun hc => hcomment (Or.inl hc), fun hc => hcomment (Or.inr hc), hquote, hopen, hclose, hback⟩
    simp [hplain]

/-- Where a word begins, nothing unsound is read. -/
theorem start_sound (h : start c = some (next, out)) :
    next.Sound ∧ ∀ w ∈ out.flatMap Token.words, w.Sound := by
  obtain ⟨hout, hnext⟩ := start_cases h
  refine ⟨?_, fun w hw => ?_⟩
  · rcases hnext with rfl | rfl | rfl | ⟨hplain, rfl⟩
    · trivial
    · trivial
    · simp [Mode.Sound]
    · simpa [Mode.Sound] using hplain
  · obtain ⟨t, ht, hwt⟩ := List.mem_flatMap.mp hw
    rw [hout t ht] at hwt
    cases hwt

/-- One character keeps the words that are read sound. -/
theorem step_sound (h : step mode c = some (next, out)) (hmode : mode.Sound) :
    next.Sound ∧ ∀ w ∈ out.flatMap Token.words, w.Sound := by
  cases mode with
  | between => exact start_sound h
  | comment =>
      simp only [step, Option.some.injEq] at h
      split_ifs at h <;> obtain ⟨rfl, rfl⟩ := Prod.mk.inj h <;> simp [Mode.Sound, Token.words]
  | plain text =>
      rw [step] at h
      split_ifs at h with hplain
      · obtain ⟨rfl, rfl⟩ := Prod.mk.inj (Option.some.inj h)
        have hall : ∀ c' ∈ text ++ [c], isPlain c' = true := by
          intro c' hc'
          rcases List.mem_append.mp hc' with hc' | hc'
          · exact hmode.2 c' hc'
          · rwa [List.mem_singleton.mp hc']
        exact ⟨⟨by simp, hall⟩, by simp⟩
      · obtain ⟨⟨next', out'⟩, hstart, hsplit⟩ := Option.map_eq_some_iff.mp h
        obtain ⟨rfl, rfl⟩ := Prod.mk.inj hsplit
        obtain ⟨hnext, hwords⟩ := start_sound hstart
        have hword : (Word.plain (String.ofList text)).Sound := by
          refine ⟨fun hempty => hmode.1 ?_, by simpa using hmode.2⟩
          simpa using congrArg String.toList hempty
        exact ⟨hnext, List.forall_mem_cons.mpr ⟨hword, hwords⟩⟩
  | quoted text =>
      rw [step] at h
      split_ifs at h with hnewline hquote hback <;>
        obtain ⟨rfl, rfl⟩ := Prod.mk.inj (Option.some.inj h)
      · have hline : '\n' ∉ text := hmode
        exact ⟨trivial, by simpa [Token.words, Word.Sound] using hline⟩
      · exact ⟨hmode, by simp⟩
      · exact ⟨by simpa [Mode.Sound, eq_comm] using ⟨hmode, hnewline⟩, by simp⟩
  | escaped text =>
      rw [step] at h
      split_ifs at h with hnewline
      obtain ⟨rfl, rfl⟩ := Prod.mk.inj (Option.some.inj h)
      exact ⟨by simpa [Mode.Sound, eq_comm] using ⟨hmode, hnewline⟩, by simp⟩

/-- The words of a text are sound: the plain ones consist of plain characters. -/
theorem lex_sound {cs : List Char} (hmode : mode.Sound) (h : lex mode cs = some ts) :
    ∀ w ∈ ts.flatMap Token.words, w.Sound := by
  induction cs generalizing mode ts with
  | nil =>
      cases mode with
      | between | comment =>
          obtain rfl := Option.some.inj h
          simp
      | plain text =>
          obtain rfl := Option.some.inj h
          have hword : (Word.plain (String.ofList text)).Sound := by
            refine ⟨fun hempty => hmode.1 ?_, by simpa using hmode.2⟩
            simpa using congrArg String.toList hempty
          simpa [Token.words] using hword
      | quoted text | escaped text => cases h
  | cons c cs ih =>
      obtain ⟨⟨next, out⟩, hstep, hrest⟩ := Option.bind_eq_some_iff.mp h
      obtain ⟨rest, hlex, rfl⟩ := Option.map_eq_some_iff.mp hrest
      obtain ⟨hnext, hout⟩ := step_sound hstep hmode
      intro w hw
      rw [List.flatMap_append, List.mem_append] at hw
      rcases hw with hw | hw
      · exact hout w hw
      · exact ih hnext hlex w hw

/-- A character that begins a word brings no escape into it. -/
theorem start_escapes (h : start c = some (next, out)) :
    next.escapes + escapesOf (out.flatMap Token.words) = 0 := by
  obtain ⟨hout, hnext⟩ := start_cases h
  have hwords : out.flatMap Token.words = [] := List.flatMap_eq_nil_iff.mpr hout
  rw [hwords]
  rcases hnext with rfl | rfl | rfl | ⟨hplain, rfl⟩
  · rfl
  · rfl
  · rfl
  · obtain ⟨-, -, -, -, hquote, -, -, hback⟩ := isPlain_iff.mp hplain
    simp [Mode.escapes, escapes, escapesOf, hquote, hback]

/-- Escapes are counted character by character. -/
theorem escapes_append_singleton (text : List Char) (c : Char) :
    escapes (text ++ [c]) = escapes text + escapes [c] := by
  simp only [escapes, List.count_append]
  omega

theorem escapes_singleton_eq_zero (hquote : c ≠ '"') (hback : c ≠ '\\') : escapes [c] = 0 := by
  simp [escapes, hquote, hback]

/-- A character takes one escape at most, and the backslash two. -/
theorem escapes_singleton_le (c : Char) : escapes [c] ≤ 1 + [c].count '\\' := by
  by_cases hback : c = '\\'
  · subst hback
    decide
  · by_cases hquote : c = '"'
    · subst hquote
      decide
    · rw [escapes_singleton_eq_zero hquote hback]
      exact Nat.zero_le _

/-- What a step puts into a word that has to be escaped, it has read a backslash for. -/
theorem step_escapes (h : step mode c = some (next, out)) :
    next.escapes + escapesOf (out.flatMap Token.words) ≤ mode.escapes + [c].count '\\' := by
  cases mode with
  | between =>
      rw [start_escapes h]
      exact Nat.zero_le _
  | comment =>
      simp only [step, Option.some.injEq] at h
      split_ifs at h <;> obtain ⟨rfl, rfl⟩ := Prod.mk.inj h <;> exact Nat.zero_le _
  | plain text =>
      rw [step] at h
      split_ifs at h with hplain
      · obtain ⟨rfl, rfl⟩ := Prod.mk.inj (Option.some.inj h)
        obtain ⟨-, -, -, -, hquote, -, -, hback⟩ := isPlain_iff.mp hplain
        simp [Mode.escapes, escapes_append_singleton, escapes_singleton_eq_zero hquote hback,
          escapesOf]
      · obtain ⟨⟨next', out'⟩, hstart, hsplit⟩ := Option.map_eq_some_iff.mp h
        obtain ⟨rfl, rfl⟩ := Prod.mk.inj hsplit
        have hzero := start_escapes hstart
        simp only [Mode.escapes, escapesOf, Token.words, List.flatMap_cons, List.singleton_append,
          List.map_cons, List.sum_cons, Word.value, String.toList_ofList] at hzero ⊢
        omega
  | quoted text =>
      rw [step] at h
      split_ifs at h with hnewline hquote hback <;>
        obtain ⟨rfl, rfl⟩ := Prod.mk.inj (Option.some.inj h)
      · simp [Mode.escapes, escapesOf, Token.words, Word.value]
      · simp [Mode.escapes, escapesOf, hback]
      · simp [Mode.escapes, escapes_append_singleton, escapes_singleton_eq_zero hquote hback,
          escapesOf]
  | escaped text =>
      rw [step] at h
      split_ifs at h with hnewline
      obtain ⟨rfl, rfl⟩ := Prod.mk.inj (Option.some.inj h)
      have hle := escapes_singleton_le c
      simp only [Mode.escapes, escapes_append_singleton, escapesOf, List.flatMap_nil, List.map_nil,
        List.sum_nil]
      omega

/-- A text has a backslash for each escape in the words that are read from it. -/
theorem lex_escapes {cs : List Char} (h : lex mode cs = some ts) :
    escapesOf (ts.flatMap Token.words) ≤ mode.escapes + cs.count '\\' := by
  induction cs generalizing mode ts with
  | nil =>
      cases mode with
      | between | comment =>
          obtain rfl := Option.some.inj h
          exact Nat.zero_le _
      | plain text =>
          obtain rfl := Option.some.inj h
          simp [Mode.escapes, escapesOf, Token.words, Word.value]
      | quoted text | escaped text => cases h
  | cons c cs ih =>
      obtain ⟨⟨next, out⟩, hstep, hrest⟩ := Option.bind_eq_some_iff.mp h
      obtain ⟨rest, hlex, rfl⟩ := Option.map_eq_some_iff.mp hrest
      have hout := step_escapes hstep
      have hle := ih hlex
      have hsplit : escapesOf ((out ++ rest).flatMap Token.words) =
          escapesOf (out.flatMap Token.words) + escapesOf (rest.flatMap Token.words) := by
        simp [escapesOf]
      have hcount : (c :: cs).count '\\' = [c].count '\\' + cs.count '\\' := by
        rw [← List.count_append, List.singleton_append]
      omega

end Sound

/-- The words of the blocks that are open, the outermost first. -/
def wordsOfFrames : List Frame → List Word
  | [] => []
  | (head, before) :: frames => wordsOfFrames frames ++ (wordsOf before ++ head)

/-- The words of two runs of items follow each other. -/
theorem wordsOf_append (items items' : List Item) :
    wordsOf (items ++ items') = wordsOf items ++ wordsOf items' := by
  induction items with
  | nil => rfl
  | cons item items ih => rw [List.cons_append, wordsOf, wordsOf, ih, List.append_assoc]

/-- The words of a line join those of the items before it. -/
theorem wordsOf_endLine (items : List Item) (ws : List Word) :
    wordsOf (endLine items ws) = wordsOf items ++ ws := by
  rw [endLine]
  split_ifs with h
  · rw [h, List.append_nil]
  · simp [wordsOf_append, wordsOf, Item.words]

/-- Every word that was read is in the items, in the order of the text. -/
theorem wordsOf_build {ts : List Token} {frames : List Frame} {items result : List Item}
    {ws : List Word} (h : build frames items ws ts = some result) :
    wordsOf result =
      wordsOfFrames frames ++ (wordsOf items ++ (ws ++ ts.flatMap Token.words)) := by
  induction ts generalizing frames items ws with
  | nil =>
      cases frames with
      | nil =>
          obtain rfl := Option.some.inj h
          simp [wordsOfFrames, wordsOf_endLine]
      | cons frame frames => cases h
  | cons t ts ih =>
      cases t with
      | word w =>
          rw [build_word] at h
          simpa [Token.words] using ih h
      | newline =>
          rw [build_newline] at h
          simpa [Token.words, wordsOf_endLine] using ih h
      | opening =>
          by_cases hws : ws = []
          · cases frames <;> simp [build, hws] at h
          · rw [build_opening hws] at h
            simpa [Token.words, wordsOfFrames, wordsOf] using ih h
      | closing =>
          cases frames with
          | nil => cases h
          | cons frame frames =>
              rw [build_closing] at h
              simpa [Token.words, wordsOfFrames, wordsOf_append, wordsOf_endLine, wordsOf,
                Item.words] using ih h

def backslashesOf (ws : List Word) : Nat := (ws.map fun w => w.value.toList.count '\\').sum

/-- The backslashes of two runs of words are counted apart. -/
theorem backslashesOf_append (ws ws' : List Word) :
    backslashesOf (ws ++ ws') = backslashesOf ws + backslashesOf ws' := by
  simp [backslashesOf]

/-- A line has the backslashes of its words. -/
theorem count_lineText (ws : List Word) :
    (lineText ws).toList.count '\\' = backslashesOf ws := by
  have htext : ∀ w : Word, w.text.toList.count '\\' = w.value.toList.count '\\' := by
    intro w
    cases w <;> simp [Word.text, Word.value]
  induction ws with
  | nil => rfl
  | cons w ws ih =>
      cases ws with
      | nil => simp [lineText, htext, backslashesOf]
      | cons w' ws =>
          have hsplit : (lineText (w :: w' :: ws)).toList.count '\\' =
              w.text.toList.count '\\' + (lineText (w' :: ws)).toList.count '\\' := by
            simp [lineText]
          rw [hsplit, htext, ih]
          simp [backslashesOf]

theorem count_indent {indent : String} (h : ∀ c ∈ indent.toList, c = ' ') :
    indent.toList.count '\\' = 0 :=
  List.count_eq_zero.mpr fun hmem => absurd (h _ hmem) (by decide)

mutual

/-- No backslash is printed but those of the words. -/
theorem count_print (item : Item) {indent : String} (hindent : ∀ c ∈ indent.toList, c = ' ') :
    (item.print indent).toList.count '\\' = backslashesOf item.words := by
  match item with
  | .line ws =>
      have hsplit : ((Item.line ws).print indent).toList.count '\\' =
          indent.toList.count '\\' + (lineText ws).toList.count '\\' := by
        simp [Item.print]
      rw [hsplit, count_indent hindent, count_lineText, Item.words, Nat.zero_add]
  | .block head body =>
      have hsplit : ((Item.block head body).print indent).toList.count '\\' =
          indent.toList.count '\\' + (lineText head).toList.count '\\' +
            (printAll (indent ++ "  ") body).toList.count '\\' + indent.toList.count '\\' := by
        simp [Item.print]
        omega
      rw [hsplit, count_indent hindent, count_lineText, count_printAll body (deeper hindent),
        Item.words, backslashesOf_append]
      omega

/-- A print has the backslashes of its words, and no others. -/
theorem count_printAll (items : List Item) {indent : String}
    (hindent : ∀ c ∈ indent.toList, c = ' ') :
    (printAll indent items).toList.count '\\' = backslashesOf (wordsOf items) := by
  match items with
  | [] => rfl
  | item :: items =>
      rw [printAll, String.toList_append, List.count_append, count_print item hindent,
        count_printAll items hindent, wordsOf, backslashesOf_append]

end

/-- Two backslashes are read for each backslash of a string, and one for each quote: a text with
no more backslashes than its strings have has neither in them. -/
theorem escapesOf_eq_zero {ws : List Word} (h : escapesOf ws ≤ backslashesOf ws) :
    ∀ w ∈ ws, escapes w.value.toList = 0 := by
  have hdouble : 2 * backslashesOf ws ≤ escapesOf ws := by
    clear h
    induction ws with
    | nil => exact Nat.le_refl _
    | cons w ws ih =>
        simp only [backslashesOf, escapesOf, escapes, List.map_cons, List.sum_cons] at ih ⊢
        omega
  have hzero : (ws.map fun w => escapes w.value.toList).sum = 0 := by
    rw [escapesOf] at h hdouble
    omega
  intro w hw
  exact List.sum_eq_zero_iff_forall_eq_nat.mp hzero _ (List.mem_map_of_mem hw)

/-- A sound word without escapes is readable. -/
theorem readable_of_sound {w : Word} (hsound : w.Sound) (h : escapes w.value.toList = 0) :
    w.Readable := by
  cases w with
  | plain text => exact hsound
  | quoted text =>
      have hnone : text.toList.count '\\' = 0 ∧ text.toList.count '"' = 0 := by
        simp only [escapes, Word.value] at h
        omega
      intro c hc
      refine ⟨fun heq => hsound (heq ▸ hc), fun heq => ?_, fun heq => ?_⟩
      · exact List.count_eq_zero.mp hnone.2 (heq ▸ hc)
      · exact List.count_eq_zero.mp hnone.1 (heq ▸ hc)

/-- A print that is read as what it was printed from has readable words only. -/
theorem readable_of_parse {items : List Item} (h : parse (printAll "" items) = some items) :
    Reads items := by
  obtain ⟨ts, hlex, hbuild⟩ := Option.bind_eq_some_iff.mp h
  have hwords : wordsOf items = ts.flatMap Token.words := wordsOf_build hbuild
  have hescapes := lex_escapes hlex
  rw [count_printAll items no_indent, ← hwords, Mode.escapes, Nat.zero_add] at hescapes
  have hstart : Mode.between.Sound := trivial
  intro w hw
  have hsound : w.Sound := lex_sound hstart hlex w (hwords ▸ hw)
  exact readable_of_sound hsound (escapesOf_eq_zero hescapes w hw)

/-- Readable words are read back. -/
theorem parse_of_readable {items : List Item} (hproper : areProper items = true)
    (h : Reads items) : parse (printAll "" items) = some items := by
  have hlex : lex .between (printAll "" items).toList = some (tokensOf items) := by
    have hend : lex .between [] = some [] := rfl
    have hrest := lex_printAll items no_indent hproper h []
    rwa [List.append_nil, hend, Option.map_some, List.append_nil] at hrest
  have hbuild := build_tokensOf items hproper [] [] []
  rw [parse, hlex, Option.bind_some, ← List.append_nil (tokensOf items), hbuild, List.nil_append]
  rfl

/-- A printed text is read as what it is the print of exactly if each of its words is such that it
can be read. -/
theorem parse_printAll_iff {items : List Item} (hproper : areProper items = true) :
    parse (printAll "" items) = some items ↔ Reads items :=
  ⟨readable_of_parse, parse_of_readable hproper⟩

/-- A line of comment in front says nothing. -/
theorem parse_comment {text s : String} (h : '\n' ∉ text.toList) :
    parse ("#" ++ text ++ "\n" ++ s) = parse s := by
  have hchars : ("#" ++ text ++ "\n" ++ s).toList = '#' :: (text.toList ++ '\n' :: s.toList) := by
    simp
  have hcomment : ∀ cs : List Char, '\n' ∉ cs → ∀ rest,
      lex .comment (cs ++ '\n' :: rest) = (lex .between rest).map (.newline :: ·) := by
    intro cs hcs rest
    induction cs with
    | nil => rfl
    | cons c cs ih =>
        rw [List.mem_cons, not_or] at hcs
        have hstep : step .comment c = some (.comment, []) := by
          simp [step, Ne.symm hcs.1]
        rw [List.cons_append, lex_silent hstep, ih hcs.2]
  have hhash : ∀ cs, lex .between ('#' :: cs) = lex .comment cs := fun cs => lex_silent rfl
  rw [parse, parse, hchars, hhash, hcomment _ h]
  cases lex .between s.toList with
  | none => rfl
  | some ts => rfl

end BlockText
