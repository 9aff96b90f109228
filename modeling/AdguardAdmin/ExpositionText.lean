import AdguardAdmin.Fields
/-!
# The text format in which metrics are exposed

A page is a sequence of lines: the help and the type of a metric, and samples, each with a
metric name, labels in quotation marks and a value.  Blank lines and other comments are
looked past.

* `readPage_text` — a page that is written is read again, label values unescaped;
* `newline_not_mem_value` — what is read has its value on one line.

Nothing here says what the names are or how often a metric may be sampled; `Distinct` and
`Described` are what a reader of pages asks for besides.
-/

namespace ExpositionText

structure Sample where
  name : String
  labels : List (String × String)
  value : String
  deriving DecidableEq, Repr

inductive Line where
  | help (name text : String)
  | type (name kind : String)
  | sample (s : Sample)
  deriving DecidableEq, Repr

/-! ## Writing -/

/-- In a label value, backslash, quotation mark and newline are escaped. -/
def escapeChar (c : Char) : List Char :=
  if c = '\\' then ['\\', '\\'] else if c = '"' then ['\\', '"']
  else if c = '\n' then ['\\', 'n'] else [c]

def escape (cs : List Char) : List Char := cs.flatMap escapeChar

def labelText (label : String × String) : List Char :=
  label.1.toList ++ '=' :: '"' :: (escape label.2.toList ++ ['"'])

def sampleText (s : Sample) : List Char :=
  s.name.toList ++ '{' :: ([','].intercalate (s.labels.map labelText) ++
    '}' :: ' ' :: s.value.toList)

def helpMark : List Char := [' ', 'H', 'E', 'L', 'P', ' ']

def typeMark : List Char := [' ', 'T', 'Y', 'P', 'E', ' ']

def lineText : Line → List Char
  | .help name text => '#' :: (helpMark ++ (name.toList ++ ' ' :: text.toList))
  | .type name kind => '#' :: (typeMark ++ (name.toList ++ ' ' :: kind.toList))
  | .sample s => sampleText s

/-- The lines, each with a newline behind it; an empty page is one blank line. -/
def pageText (page : List Line) : List Char := ['\n'].intercalate (page.map lineText) ++ ['\n']

/-! ## Reading -/

def isNameChar (c : Char) : Bool := c.isAlphanum || c = '_' || c = ':'

def unescapeChar (c : Char) : Option Char :=
  if c = '\\' then some '\\' else if c = '"' then some '"'
  else if c = 'n' then some '\n' else none

/-- A label value behind its opening quotation mark, up to the closing one. -/
def readQuoted : List Char → Option (List Char × List Char)
  | [] => none
  | c :: rest =>
      if c = '"' then some ([], rest)
      else if c = '\\' then
        match rest with
        | [] => none
        | e :: rest => do
            let d ← unescapeChar e
            let (value, tail) ← readQuoted rest
            return (d :: value, tail)
      else (readQuoted rest).map fun p => (c :: p.1, p.2)

/-- Labels up to the closing brace, each followed by a comma or by the brace; there are no more
of them than the fuel. -/
def readLabels : Nat → List Char → Option (List (String × String) × List Char)
  | 0, _ => none
  | fuel + 1, text =>
      match text with
      | '}' :: rest => some ([], rest)
      | _ =>
          match text.dropWhile isNameChar with
          | '=' :: '"' :: quoted => do
              let (value, rest) ← readQuoted quoted
              let label := (String.ofList (text.takeWhile isNameChar), String.ofList value)
              match rest with
              | ',' :: rest =>
                  let (labels, tail) ← readLabels fuel rest
                  return (label :: labels, tail)
              | '}' :: rest => return ([label], rest)
              | _ => none
          | _ => none

/-- The labels in braces, if there are any. -/
def readBraces : List Char → Option (List (String × String) × List Char)
  | '{' :: rest => readLabels (rest.length + 1) rest
  | rest => some ([], rest)

/-- Name, labels, a blank and the value. -/
def readSample (text : List Char) : Option Sample := do
  let name := text.takeWhile isNameChar
  let (labels, rest) ← readBraces (text.dropWhile isNameChar)
  match rest with
  | ' ' :: value =>
      if name = [] then none else some ⟨String.ofList name, labels, String.ofList value⟩
  | _ => none

/-- A name, a blank and the rest of the line. -/
def readNamed (text : List Char) : Option (String × String) :=
  match text.dropWhile isNameChar with
  | ' ' :: rest => some (String.ofList (text.takeWhile isNameChar), String.ofList rest)
  | _ => none

/-- What a line says; blank lines and other comments say nothing. -/
def readLine (text : List Char) : Option (List Line) :=
  match text with
  | [] => some []
  | '#' :: rest =>
      if rest.take 6 = helpMark then (readNamed (rest.drop 6)).map fun p => [.help p.1 p.2]
      else if rest.take 6 = typeMark then (readNamed (rest.drop 6)).map fun p => [.type p.1 p.2]
      else some []
  | _ => (readSample text).map fun s => [.sample s]

def readPage (text : List Char) : Option (List Line) :=
  ((text.splitOn '\n').mapM readLine).map List.flatten

/-! ## What is asked of a page -/

/-- One metric name and one set of labels. -/
def SameSeries (s t : Sample) : Prop :=
  s.name = t.name ∧ ∀ label, label ∈ s.labels ↔ label ∈ t.labels

def samples (page : List Line) : List Sample :=
  page.filterMap fun
    | .sample s => some s
    | _ => none

def helps (page : List Line) : List String :=
  page.filterMap fun
    | .help name _ => some name
    | _ => none

def types (page : List Line) : List String :=
  page.filterMap fun
    | .type name _ => some name
    | _ => none

/-- No two samples of one series. -/
def Distinct (ss : List Sample) : Prop := ss.Pairwise fun s t => ¬ SameSeries s t

/-- A metric is described once, before its samples. -/
structure Described (page : List Line) : Prop where
  helps : (helps page).Nodup
  types : (types page).Nodup
  before : ∀ front s back, page = front ++ .sample s :: back →
    s.name ∈ ExpositionText.helps front ∧ s.name ∈ ExpositionText.types front

/-! ## Written and read again -/

/-- Names are made of name characters. -/
def IsName (s : String) : Prop := s ≠ "" ∧ ∀ c ∈ s.toList, isNameChar c = true

instance (s : String) : Decidable (IsName s) :=
  @instDecidableAnd _ _ (inferInstanceAs (Decidable (s ≠ ""))) (List.decidableBAll _ _)

/-- The characters of a literal are known without decoding it. -/
theorem isName_ofList {cs : List Char} (h : (!cs.isEmpty && cs.all isNameChar) = true) :
    IsName (String.ofList cs) := by
  rw [Bool.and_eq_true, List.all_eq_true] at h
  refine ⟨fun hempty => ?_, fun c hc => h.2 c (by rwa [String.toList_ofList] at hc)⟩
  have hnil := congrArg String.toList hempty
  rw [String.toList_ofList] at hnil
  simp [hnil] at h

/-- A text whose characters are no line breaks has none. -/
theorem newline_not_mem_ofList {cs : List Char} (h : cs.all (· != '\n') = true) :
    '\n' ∉ (String.ofList cs).toList := by
  rw [String.toList_ofList]
  intro hmem
  exact absurd (List.all_eq_true.mp h _ hmem) (by decide)

/-- What a line needs to be read as it is meant. -/
def Line.Ok : Line → Prop
  | .help name text => IsName name ∧ '\n' ∉ text.toList
  | .type name kind => IsName name ∧ '\n' ∉ kind.toList
  | .sample s => (IsName s.name ∧ ∀ label ∈ s.labels, IsName label.1) ∧ '\n' ∉ s.value.toList

/-- An ordinary character is read as it is. -/
theorem readQuoted_plain {c : Char} (hquote : c ≠ '"') (hslash : c ≠ '\\') (text : List Char) :
    readQuoted (c :: text) = (readQuoted text).map fun p => (c :: p.1, p.2) := by
  rw [readQuoted.eq_def]
  simp [hquote, hslash]

theorem readQuoted_quote (text : List Char) : readQuoted ('"' :: text) = some ([], text) := by
  rw [readQuoted.eq_def]
  simp

/-- An escaped value is read back. -/
theorem readQuoted_escape (cs rest : List Char) :
    readQuoted (escape cs ++ '"' :: rest) = some (cs, rest) := by
  induction cs with
  | nil => exact readQuoted_quote rest
  | cons c cs ih =>
      have hcons : escape (c :: cs) = escapeChar c ++ escape cs := List.flatMap_cons
      rw [hcons, List.append_assoc]
      by_cases hslash : c = '\\'
      · subst hslash
        simp [escapeChar, readQuoted, unescapeChar, ih]
      · by_cases hquote : c = '"'
        · subst hquote
          simp [escapeChar, readQuoted, unescapeChar, ih]
        · by_cases hline : c = '\n'
          · subst hline
            simp [escapeChar, readQuoted, unescapeChar, ih]
          · have hchar : escapeChar c = [c] := by simp [escapeChar, hslash, hquote, hline]
            rw [hchar, List.singleton_append, readQuoted_plain hquote hslash, ih]
            rfl

/-- A run of name characters ends where another character stands. -/
theorem takeWhile_name {name : List Char} {c : Char} {rest : List Char}
    (hname : ∀ d ∈ name, isNameChar d = true) (hc : isNameChar c = false) :
    (name ++ c :: rest).takeWhile isNameChar = name ∧
      (name ++ c :: rest).dropWhile isNameChar = c :: rest := by
  constructor
  · rw [List.takeWhile_append_of_pos hname, List.takeWhile_cons_of_neg (by simp [hc]),
      List.append_nil]
  · rw [List.dropWhile_append_of_pos hname, List.dropWhile_cons_of_neg (by simp [hc])]

/-- A label is read, and then what the comma or brace behind it calls for. -/
theorem readLabels_labelText {label : String × String} (hname : IsName label.1) (fuel : Nat)
    (tail : List Char) :
    readLabels (fuel + 1) (labelText label ++ tail) =
      match tail with
      | ',' :: rest => (readLabels fuel rest).map fun p => (label :: p.1, p.2)
      | '}' :: rest => some ([label], rest)
      | _ => none := by
  have htext : labelText label ++ tail =
      label.1.toList ++ '=' :: '"' :: (escape label.2.toList ++ '"' :: tail) := by
    simp [labelText]
  obtain ⟨htake, hdrop⟩ : (labelText label ++ tail).takeWhile isNameChar = label.1.toList ∧
      (labelText label ++ tail).dropWhile isNameChar =
        '=' :: '"' :: (escape label.2.toList ++ '"' :: tail) := by
    rw [htext]
    exact takeWhile_name hname.2 (by decide)
  rw [readLabels]
  · rw [hdrop]
    simp only [readQuoted_escape, htake, String.ofList_toList, Option.bind_eq_bind,
      Option.bind_some]
    cases tail with
    | nil => rfl
    | cons c rest =>
        by_cases hcomma : c = ','
        · subst hcomma
          cases hrest : readLabels fuel rest <;> simp [hrest]
        · by_cases hbrace : c = '}'
          · subst hbrace
            rfl
          · simp [hcomma, hbrace]
  · -- a name does not start with the brace
    intro rest hbrace
    rw [hbrace] at hdrop
    simp [isNameChar] at hdrop

/-- Labels are read back. -/
theorem readLabels_labels {labels : List (String × String)}
    (hnames : ∀ label ∈ labels, IsName label.1) {fuel : Nat} (hfuel : labels.length < fuel)
    (rest : List Char) :
    readLabels fuel ([','].intercalate (labels.map labelText) ++ '}' :: rest) =
      some (labels, rest) := by
  induction labels generalizing fuel with
  | nil =>
      obtain ⟨n, rfl⟩ := Nat.exists_eq_succ_of_ne_zero (by omega : fuel ≠ 0)
      rfl
  | cons label labels ih =>
      obtain ⟨n, rfl⟩ := Nat.exists_eq_succ_of_ne_zero (by omega : fuel ≠ 0)
      have hlabel := hnames label List.mem_cons_self
      have hothers : ∀ other ∈ labels, IsName other.1 :=
        fun other hother => hnames other (List.mem_cons_of_mem _ hother)
      cases labels with
      | nil =>
          rw [List.map_singleton, List.intercalate_singleton]
          exact readLabels_labelText hlabel n _
      | cons next labels =>
          have hshorter : (next :: labels).length < n := by
            rw [List.length_cons] at hfuel
            omega
          have hrest := ih hothers hshorter
          rw [List.map_cons] at hrest
          rw [List.map_cons, List.map_cons, List.intercalate_cons_cons, List.append_assoc,
            List.append_assoc, List.singleton_append, Nat.succ_eq_add_one,
            readLabels_labelText hlabel]
          simp only [hrest, Option.map_some]

/-- Labels have at least one character each. -/
theorem length_le_intercalate (labels : List (String × String)) :
    labels.length ≤ ([','].intercalate (labels.map labelText)).length := by
  induction labels with
  | nil => exact Nat.le_refl 0
  | cons label labels ih =>
      have hlabel : 0 < (labelText label).length := by
        simp only [labelText, List.length_append, List.length_cons]
        omega
      cases labels with
      | nil =>
          rw [List.map_singleton, List.intercalate_singleton]
          exact hlabel
      | cons next labels =>
          rw [List.map_cons] at ih
          rw [List.map_cons, List.map_cons, List.intercalate_cons_cons, List.length_append,
            List.length_append, List.length_singleton]
          simp only [List.length_cons] at ih ⊢
          omega

/-- A sample is read back. -/
theorem readSample_sampleText {s : Sample} (hname : IsName s.name)
    (hlabels : ∀ label ∈ s.labels, IsName label.1) : readSample (sampleText s) = some s := by
  obtain ⟨htake, hdrop⟩ : (sampleText s).takeWhile isNameChar = s.name.toList ∧
      (sampleText s).dropWhile isNameChar =
        '{' :: ([','].intercalate (s.labels.map labelText) ++ '}' :: ' ' :: s.value.toList) :=
    takeWhile_name hname.2 (by decide)
  have hread : ∀ fuel, s.labels.length < fuel →
      readLabels fuel ([','].intercalate (s.labels.map labelText) ++ '}' :: ' ' :: s.value.toList) =
        some (s.labels, ' ' :: s.value.toList) :=
    fun fuel hfuel => readLabels_labels hlabels hfuel _
  have hlength := length_le_intercalate s.labels
  have hne : s.name.toList ≠ [] := by simpa using hname.1
  unfold readSample
  rw [htake, hdrop, readBraces, hread _ (by simp only [List.length_append]; omega)]
  simp [hne]

/-- A name is read up to the space behind it. -/
theorem readNamed_eq {name : String} (hname : IsName name) (text : String) :
    readNamed (name.toList ++ ' ' :: text.toList) = some (name, text) := by
  obtain ⟨htake, hdrop⟩ : (name.toList ++ ' ' :: text.toList).takeWhile isNameChar = name.toList ∧
      (name.toList ++ ' ' :: text.toList).dropWhile isNameChar = ' ' :: text.toList :=
    takeWhile_name hname.2 (by decide)
  unfold readNamed
  rw [hdrop]
  simp [htake]

/-- **A line is read as it is meant.** -/
theorem readLine_lineText {line : Line} (h : line.Ok) : readLine (lineText line) = some [line] := by
  cases line with
  | help name text =>
      have htake : (helpMark ++ (name.toList ++ ' ' :: text.toList)).take 6 = helpMark := rfl
      have hdrop : (helpMark ++ (name.toList ++ ' ' :: text.toList)).drop 6 =
          name.toList ++ ' ' :: text.toList := rfl
      rw [lineText, readLine, if_pos htake, hdrop, readNamed_eq h.1]
      rfl
  | type name kind =>
      have htake : (typeMark ++ (name.toList ++ ' ' :: kind.toList)).take 6 = typeMark := rfl
      have hdrop : (typeMark ++ (name.toList ++ ' ' :: kind.toList)).drop 6 =
          name.toList ++ ' ' :: kind.toList := rfl
      have hne : (typeMark ++ (name.toList ++ ' ' :: kind.toList)).take 6 ≠ helpMark := by
        rw [htake]
        decide
      rw [lineText, readLine, if_neg hne, if_pos htake, hdrop, readNamed_eq h.1]
      rfl
  | sample s =>
      obtain ⟨⟨hname, hlabels⟩, -⟩ := h
      have hread := readSample_sampleText hname hlabels
      obtain ⟨c, rest, hfirst⟩ := List.exists_cons_of_ne_nil
        (show s.name.toList ≠ [] by simpa using hname.1)
      -- a name does not start like a comment
      have hhash : c ≠ '#' := by
        rintro rfl
        have hc := hname.2 '#' (by simp [hfirst])
        cases hc
      have htext : ∃ tail, lineText (.sample s) = c :: tail := by
        rw [lineText, sampleText, hfirst]
        exact ⟨_, rfl⟩
      obtain ⟨tail, htail⟩ := htext
      have hread' : readSample (c :: tail) = some s := by
        rw [← htail]
        exact hread
      rw [htail, readLine]
      · rw [hread']
        rfl
      · exact fun hnil => nomatch hnil
      · exact fun rest heq => hhash (List.cons.inj heq).1

/-! ## Pages -/

/-- Escapes leave no line break. -/
theorem newline_not_mem_escape (cs : List Char) : '\n' ∉ escape cs := by
  intro h
  obtain ⟨c, -, hc⟩ := List.mem_flatMap.mp h
  unfold escapeChar at hc
  by_cases hslash : c = '\\'
  · simp [hslash] at hc
  · by_cases hquote : c = '"'
    · simp [hquote] at hc
    · by_cases hline : c = '\n'
      · simp [hline] at hc
      · simp [hslash, hquote, hline] at hc
        exact hline hc.symm

/-- Names have no line break. -/
theorem newline_not_mem_name {name : String} (h : IsName name) : '\n' ∉ name.toList := by
  intro hmem
  have hc := h.2 '\n' hmem
  cases hc

/-- The text of labels has no line break. -/
theorem newline_not_mem_labels {labels : List (String × String)}
    (h : ∀ label ∈ labels, IsName label.1) : '\n' ∉ [','].intercalate (labels.map labelText) := by
  intro hmem
  rcases Fields.mem_intercalate hmem with hcomma | ⟨text, htext, hline⟩
  · exact absurd hcomma (by decide)
  · obtain ⟨label, hlabel, rfl⟩ := List.mem_map.mp htext
    have hname := newline_not_mem_name (h label hlabel)
    simp [labelText, hname, newline_not_mem_escape] at hline

/-- The text of a line that may be written has no line break. -/
theorem newline_not_mem_lineText {line : Line} (h : line.Ok) : '\n' ∉ lineText line := by
  cases line with
  | help name text =>
      have hname := newline_not_mem_name h.1
      have hmark : '\n' ∉ helpMark := by decide
      simp [lineText, hmark, hname, h.2]
  | type name kind =>
      have hname := newline_not_mem_name h.1
      have hmark : '\n' ∉ typeMark := by decide
      simp [lineText, hmark, hname, h.2]
  | sample s =>
      obtain ⟨⟨hname, hlabels⟩, hvalue⟩ := h
      have hname := newline_not_mem_name hname
      have hlabels := newline_not_mem_labels hlabels
      simp [lineText, sampleText, hname, hlabels, hvalue]

/-- An empty line at the end is one more gap. -/
theorem intercalate_snoc_nil {gap : List Char} {lines : List (List Char)} (hne : lines ≠ []) :
    gap.intercalate (lines ++ [[]]) = gap.intercalate lines ++ gap := by
  induction lines with
  | nil => exact absurd rfl hne
  | cons line lines ih =>
      cases lines with
      | nil => simp
      | cons next lines =>
          have hrest := ih (List.cons_ne_nil _ _)
          rw [List.cons_append] at hrest
          rw [List.cons_append, List.cons_append, List.intercalate_cons_cons,
            List.intercalate_cons_cons, hrest, List.append_assoc, List.append_assoc,
            List.append_assoc]

/-- The page as its lines and, behind the last newline, a blank one. -/
theorem splitOn_pageText {page : List Line} (h : ∀ line ∈ page, line.Ok) (hne : page ≠ []) :
    (pageText page).splitOn '\n' = page.map lineText ++ [[]] := by
  have hlines : ∀ text ∈ page.map lineText ++ [[]], '\n' ∉ text := by
    intro text htext
    rcases List.mem_append.mp htext with htext | htext
    · obtain ⟨line, hline, rfl⟩ := List.mem_map.mp htext
      exact newline_not_mem_lineText (h line hline)
    · rw [List.mem_singleton.mp htext]
      exact List.not_mem_nil
  have hpage : pageText page = ['\n'].intercalate (page.map lineText ++ [[]]) := by
    rw [pageText, intercalate_snoc_nil (by simpa using hne)]
  rw [hpage]
  exact List.splitOn_intercalate '\n' hlines (by simp)

/-- **A page is read again.** -/
theorem readPage_pageText {page : List Line} (h : ∀ line ∈ page, line.Ok) :
    readPage (pageText page) = some page := by
  by_cases hne : page = []
  · subst hne
    rfl
  · have hread : (page.map lineText).mapM readLine = some (page.map ([·])) := by
      clear hne
      induction page with
      | nil => rfl
      | cons line page ih =>
          have hline := readLine_lineText (h line List.mem_cons_self)
          have hrest := ih fun other hother => h other (List.mem_cons_of_mem _ hother)
          rw [List.map_cons, List.mapM_cons, hline, hrest]
          rfl
    rw [readPage, splitOn_pageText h hne, List.mapM_append, hread]
    have hflat : (page.map ([·])).flatten = page := by
      rw [← List.flatMap_def]
      exact List.flatMap_singleton' page
    simp [readLine, hflat]

/-! ## One line -/

/-- What is left behind a value is the end of the text. -/
theorem readQuoted_suffix {text value tail : List Char}
    (h : readQuoted text = some (value, tail)) : tail <:+ text := by
  fun_induction readQuoted text generalizing value tail with
  | case1 => cases h
  | case2 rest =>
      obtain ⟨-, rfl⟩ := Prod.mk.inj (Option.some.inj h)
      exact List.suffix_cons _ _
  | case3 hquote => cases h
  | case4 hquote e rest ih =>
      obtain ⟨d, -, h⟩ := Option.bind_eq_some_iff.mp h
      obtain ⟨⟨v, t⟩, hread, h⟩ := Option.bind_eq_some_iff.mp h
      obtain ⟨-, rfl⟩ := Prod.mk.inj (Option.some.inj h)
      exact ((ih hread).trans (List.suffix_cons _ _)).trans (List.suffix_cons _ _)
  | case5 c rest hquote hslash ih =>
      obtain ⟨⟨v, t⟩, hread, h⟩ := Option.map_eq_some_iff.mp h
      obtain ⟨-, rfl⟩ := Prod.mk.inj h
      exact (ih hread).trans (List.suffix_cons _ _)

/-- What is left behind the labels is a suffix of the text. -/
theorem readLabels_suffix {fuel : Nat} {text tail : List Char} {labels : List (String × String)}
    (h : readLabels fuel text = some (labels, tail)) : tail <:+ text := by
  fun_induction readLabels fuel text generalizing labels tail with
  | case1 => cases h
  | case2 fuel rest =>
      obtain ⟨-, rfl⟩ := Prod.mk.inj (Option.some.inj h)
      exact List.suffix_cons _ _
  | case3 fuel text quoted hquoted hbrace ih =>
      rw [hquoted] at h
      obtain ⟨⟨value, rest⟩, hvalue, h⟩ := Option.bind_eq_some_iff.mp h
      have hrest : rest <:+ text := by
        have hdrop : '=' :: '"' :: quoted <:+ text := hquoted ▸ List.dropWhile_suffix _
        exact (((readQuoted_suffix hvalue).trans (List.suffix_cons _ _)).trans
          (List.suffix_cons _ _)).trans hdrop
      dsimp only at h
      split at h
      · next rest =>
          obtain ⟨⟨others, last⟩, hothers, h⟩ := Option.bind_eq_some_iff.mp h
          obtain ⟨-, rfl⟩ := Prod.mk.inj (Option.some.inj h)
          exact ((ih rest hothers).trans (List.suffix_cons _ _)).trans hrest
      · obtain ⟨-, rfl⟩ := Prod.mk.inj (Option.some.inj h)
        exact (List.suffix_cons _ _).trans hrest
      · cases h
  | case4 fuel text hbrace hquoted =>
      split at h
      · next quoted heq => exact (hquoted quoted heq).elim
      · cases h

/-- The value of a sample that was read has no line break. -/
theorem newline_not_mem_readSample {text : List Char} {s : Sample} (h : readSample text = some s)
    (hline : '\n' ∉ text) : '\n' ∉ s.value.toList := by
  unfold readSample at h
  obtain ⟨⟨labels, rest⟩, hlabels, h⟩ := Option.bind_eq_some_iff.mp h
  have hrest : rest <:+ text := by
    unfold readBraces at hlabels
    split at hlabels
    · next inner hinner =>
        have hdrop : '{' :: inner <:+ text := hinner ▸ List.dropWhile_suffix _
        exact ((readLabels_suffix hlabels).trans (List.suffix_cons _ _)).trans hdrop
    · obtain ⟨-, rfl⟩ := Prod.mk.inj (Option.some.inj hlabels)
      exact List.dropWhile_suffix _
  dsimp only at h
  split at h
  · next value =>
      split at h
      · cases h
      · obtain rfl := Option.some.inj h
        rw [String.toList_ofList]
        exact fun hmem => hline (hrest.subset (List.mem_cons_of_mem _ hmem))
  · cases h

/-- A value read from one line has no line break. -/
theorem newline_not_mem_readLine {text : List Char} {lines : List Line}
    (h : readLine text = some lines) (hline : '\n' ∉ text) {s : Sample}
    (hs : Line.sample s ∈ lines) : '\n' ∉ s.value.toList := by
  unfold readLine at h
  split at h
  · obtain rfl := Option.some.inj h
    cases hs
  · split at h
    · obtain ⟨p, -, rfl⟩ := Option.map_eq_some_iff.mp h
      cases List.mem_singleton.mp hs
    · split at h
      · obtain ⟨p, -, rfl⟩ := Option.map_eq_some_iff.mp h
        cases List.mem_singleton.mp hs
      · obtain rfl := Option.some.inj h
        cases hs
  · obtain ⟨t, ht, rfl⟩ := Option.map_eq_some_iff.mp h
    obtain rfl := Line.sample.inj (List.mem_singleton.mp hs)
    exact newline_not_mem_readSample ht hline

/-- The lines of a page have no line break in them. -/
theorem newline_not_mem_splitOn {text line : List Char} (h : line ∈ text.splitOn '\n') :
    '\n' ∉ line := by
  induction text generalizing line with
  | nil =>
      rw [List.splitOn_nil, List.mem_singleton] at h
      rw [h]
      exact List.not_mem_nil
  | cons c text ih =>
      obtain ⟨first, others, hsplit⟩ := List.exists_cons_of_ne_nil (List.splitOn_ne_nil '\n' text)
      rw [List.splitOn_cons_eq_if_modifyHead] at h
      split at h
      · rcases List.mem_cons.mp h with rfl | hother
        · exact List.not_mem_nil
        · exact ih hother
      · next hc =>
          rw [hsplit, List.modifyHead_cons] at h
          rw [hsplit] at ih
          rcases List.mem_cons.mp h with rfl | hother
          · have hfirst := ih List.mem_cons_self
            have hne : '\n' ≠ c := by
              rintro rfl
              exact hc (beq_self_eq_true _)
            simp [hne, hfirst]
          · exact ih (List.mem_cons_of_mem _ hother)

/-- What a list is mapped to comes from one of its items. -/
theorem exists_of_mem_mapM {α β : Type} {f : α → Option β} {xs : List α} {ys : List β}
    (h : xs.mapM f = some ys) {y : β} (hy : y ∈ ys) : ∃ x ∈ xs, f x = some y := by
  induction xs generalizing ys with
  | nil =>
      obtain rfl := Option.some.inj h
      cases hy
  | cons x xs ih =>
      rw [List.mapM_cons] at h
      obtain ⟨first, hfirst, h⟩ := Option.bind_eq_some_iff.mp h
      obtain ⟨others, hothers, h⟩ := Option.bind_eq_some_iff.mp h
      obtain rfl := Option.some.inj h
      rcases List.mem_cons.mp hy with rfl | hy
      · exact ⟨x, List.mem_cons_self, hfirst⟩
      · obtain ⟨z, hz, hread⟩ := ih hothers hy
        exact ⟨z, List.mem_cons_of_mem _ hz, hread⟩

/-- **What is read has its value on one line.** -/
theorem newline_not_mem_value {text : List Char} {page : List Line} (h : readPage text = some page)
    {s : Sample} (hs : s ∈ samples page) : '\n' ∉ s.value.toList := by
  obtain ⟨read, hread, rfl⟩ := Option.map_eq_some_iff.mp h
  have hmem : Line.sample s ∈ read.flatten := by
    obtain ⟨line, hline, heq⟩ := List.mem_filterMap.mp hs
    cases line with
    | sample t =>
        obtain rfl := Option.some.inj heq
        exact hline
    | _ => cases heq
  obtain ⟨lines, hlines, hline⟩ := List.mem_flatten.mp hmem
  obtain ⟨written, hwritten, hread'⟩ := exists_of_mem_mapM hread hlines
  exact newline_not_mem_readLine hread' (newline_not_mem_splitOn hwritten) hline

end ExpositionText
