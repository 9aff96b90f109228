import Mathlib.Data.Bool.AllAny
import AdguardAdmin.SyncPlan
/-!
# Upstreams in AdGuard's syntax

A line of `upstream_dns` holds upstreams for everything, or for the domains between `[/` and
`/]`; an empty domain there stands for unqualified names.  What is read off a line can be
told from its text, and lines put together from their parts read as those parts.
-/

namespace AdguardAdmin.UpstreamSyntax

open Fields

/-! ## What AdGuard reads -/

/-- Cut at the first `/]`. -/
def cutClose : List Char → Option (List Char × List Char)
  | [] => none
  | '/' :: ']' :: rest => some ([], rest)
  | c :: rest => (cutClose rest).map fun (front, back) => (c :: front, back)

inductive Line where
  | comment
  | plain (upstreams : List String)
  /-- The domain `""` stands for unqualified names. -/
  | domains (domains upstreams : List String)
  deriving DecidableEq, Repr

def isDomain (domain : List Char) : Bool :=
  domain.all fun c => !(PyText.isGap c || c = '[' || c = ']')

/-- The first word of a line would not be read as an upstream. -/
def marked (word : String) : Bool := "#".toList <+: word.toList || "[/".toList <+: word.toList

/-- A line, where it is one of the syntax. -/
def readLine (raw : String) : Option Line :=
  match (PyText.strip raw).toList with
  | [] | '#' :: _ => some .comment
  | '[' :: '/' :: rest =>
      match cutClose rest with
      | none => none
      | some (front, back) =>
          let domains := front.splitOn '/'
          let upstreams := fields PyText.isSpace back
          if domains.all isDomain && upstreams ≠ [] && cutClose back = none && '\n' ∉ back then
            some (.domains (domains.map String.ofList) (upstreams.map String.ofList))
          else none
  | _ => if (PyText.split raw).any marked then none else some (.plain (PyText.split raw))

/-- Which queries an upstream is for. -/
inductive Selector where
  | domain (domain : String)
  | unqualified
  | everything
  deriving DecidableEq, Repr

def selector (domain : String) : Selector := if domain = "" then .unqualified else .domain domain

def Line.pairs : Line → List (Selector × String)
  | .comment => []
  | .plain us => us.map fun u => (.everything, u)
  | .domains ds us => ds.flatMap fun d => us.map fun u => (selector d, u)

abbrev InSyntax (lines : List String) : Prop := ∀ raw ∈ lines, (readLine raw).isSome

def denotation (lines : List String) : List (Selector × String) :=
  lines.flatMap fun raw => ((readLine raw).map Line.pairs).getD []

/-- AdGuard accepts the lines, and reads from them what it reads from the others. -/
structure SameMeaning (lines others : List String) : Prop where
  accepted : InSyntax lines
  pairs : ∀ pair, pair ∈ denotation lines ↔ pair ∈ denotation others

/-- A word is unmarked when neither mark stands before it. -/
theorem marked_eq_false {word : String} : marked word = false ↔
    ¬ "#".toList <+: word.toList ∧ ¬ "[/".toList <+: word.toList := by
  rw [marked, Bool.or_eq_false_iff, decide_eq_false_iff_not, decide_eq_false_iff_not]

/-- Lines denote what each of them says. -/
theorem mem_denotation_iff {lines : List String} {pair : Selector × String} :
    pair ∈ denotation lines ↔
      ∃ raw ∈ lines, ∃ line, readLine raw = some line ∧ pair ∈ line.pairs := by
  unfold denotation
  rw [List.mem_flatMap]
  refine exists_congr fun raw => and_congr_right fun _ => ?_
  cases readLine raw <;> simp

/-- What lines say of a domain. -/
theorem mem_domain {lines : List String} {d u : String} :
    (.domain d, u) ∈ denotation lines ↔ ∃ raw ∈ lines, ∃ ds us,
      readLine raw = some (.domains ds us) ∧ d ∈ ds ∧ d ≠ "" ∧ u ∈ us := by
  rw [mem_denotation_iff]
  refine exists_congr fun raw => and_congr_right fun _ => ?_
  constructor
  · rintro ⟨line, hread, hpair⟩
    cases line with
    | comment => cases hpair
    | plain us => simp [Line.pairs] at hpair
    | domains ds us =>
        obtain ⟨d', hd, hpair⟩ := List.mem_flatMap.mp hpair
        obtain ⟨u', hu, heq⟩ := List.mem_map.mp hpair
        obtain ⟨hselector, rfl⟩ := Prod.mk.inj heq
        unfold selector at hselector
        split at hselector
        · cases hselector
        · next hne =>
            obtain rfl := Selector.domain.inj hselector
            exact ⟨ds, us, hread, hd, hne, hu⟩
  · rintro ⟨ds, us, hread, hd, hne, hu⟩
    refine ⟨_, hread, List.mem_flatMap.mpr ⟨d, hd, List.mem_map.mpr ⟨u, hu, ?_⟩⟩⟩
    rw [selector, if_neg hne]

/-- What lines say of unqualified names. -/
theorem mem_unqualified {lines : List String} {u : String} :
    (.unqualified, u) ∈ denotation lines ↔ ∃ raw ∈ lines, ∃ ds us,
      readLine raw = some (.domains ds us) ∧ "" ∈ ds ∧ u ∈ us := by
  rw [mem_denotation_iff]
  refine exists_congr fun raw => and_congr_right fun _ => ?_
  constructor
  · rintro ⟨line, hread, hpair⟩
    cases line with
    | comment => cases hpair
    | plain us => simp [Line.pairs] at hpair
    | domains ds us =>
        obtain ⟨d, hd, hpair⟩ := List.mem_flatMap.mp hpair
        obtain ⟨u', hu, heq⟩ := List.mem_map.mp hpair
        obtain ⟨hselector, rfl⟩ := Prod.mk.inj heq
        unfold selector at hselector
        split at hselector
        · next hempty =>
            subst hempty
            exact ⟨ds, us, hread, hd, hu⟩
        · cases hselector
  · rintro ⟨ds, us, hread, hd, hu⟩
    exact ⟨_, hread, List.mem_flatMap.mpr ⟨"", hd, List.mem_map.mpr ⟨u, hu, rfl⟩⟩⟩

/-- A text asks an upstream for everything exactly when a plain line names it. -/
theorem mem_everything {lines : List String} {u : String} :
    (.everything, u) ∈ denotation lines ↔
      ∃ raw ∈ lines, ∃ us, readLine raw = some (.plain us) ∧ u ∈ us := by
  rw [mem_denotation_iff]
  refine exists_congr fun raw => and_congr_right fun _ => ?_
  constructor
  · rintro ⟨line, hread, hpair⟩
    cases line with
    | comment => cases hpair
    | plain us => exact ⟨us, hread, by simpa [Line.pairs] using hpair⟩
    | domains ds us =>
        obtain ⟨d, -, hpair⟩ := List.mem_flatMap.mp hpair
        obtain ⟨u', -, heq⟩ := List.mem_map.mp hpair
        have hselector := (Prod.mk.inj heq).1
        unfold selector at hselector
        split at hselector <;> cases hselector
  · rintro ⟨us, hread, hu⟩
    exact ⟨_, hread, List.mem_map.mpr ⟨u, hu, rfl⟩⟩

/-! ## Marks -/

/-- Brackets are closed at the first place where they can be. -/
theorem cutClose_cons (c : Char) (rest : List Char) :
    cutClose (c :: rest) = if c = '/' ∧ rest.head? = some ']' then some ([], rest.tail)
      else (cutClose rest).map fun (front, back) => (c :: front, back) := by
  split
  · next h =>
      obtain ⟨rfl, hhead⟩ := h
      cases rest with
      | nil => cases hhead
      | cons d rest =>
          obtain rfl : d = ']' := by simpa using hhead
          rfl
  · next h =>
      rw [cutClose]
      rintro rest' rfl hrest
      exact h ⟨rfl, by rw [hrest]; rfl⟩

/-- Brackets end with a slash and a closing bracket. -/
theorem eq_of_cutClose {text front back : List Char} (h : cutClose text = some (front, back)) :
    text = front ++ '/' :: ']' :: back := by
  induction text generalizing front with
  | nil => cases h
  | cons c rest ih =>
      rw [cutClose_cons] at h
      split at h
      · next hmark =>
          obtain ⟨rfl, hhead⟩ := hmark
          obtain ⟨rfl, rfl⟩ : [] = front ∧ rest.tail = back := by simpa using h
          rw [List.nil_append, List.cons_head?_tail hhead]
      · rw [Option.map_eq_some_iff] at h
        obtain ⟨⟨front', back'⟩, hcut, heq⟩ := h
        obtain ⟨rfl, rfl⟩ : c :: front' = front ∧ back' = back := by simpa using heq
        rw [ih hcut, List.cons_append]

/-- The first mark is the one after a text without brackets. -/
theorem cutClose_append {front : List Char} (h : ']' ∉ front) (back : List Char) :
    cutClose (front ++ '/' :: ']' :: back) = some (front, back) := by
  induction front with
  | nil => rfl
  | cons c rest ih =>
      rw [List.mem_cons, not_or] at h
      have hmark : ¬ (c = '/' ∧ (rest ++ '/' :: ']' :: back).head? = some ']') := by
        rintro ⟨-, hhead⟩
        cases rest with
        | nil => simp at hhead
        | cons d rest =>
            obtain rfl : d = ']' := by simpa using hhead
            exact h.2 List.mem_cons_self
      rw [List.cons_append, cutClose_cons, if_neg hmark, ih h.2]
      rfl

/-- A stretch of a text without the mark does not have it either. -/
theorem cutClose_stretch {before word rest : List Char}
    (h : cutClose (before ++ word ++ rest) = none) : cutClose word = none := by
  induction before with
  | nil =>
      induction word with
      | nil => rfl
      | cons c word ih =>
          rw [List.nil_append, List.cons_append, cutClose_cons] at h
          split at h
          · cases h
          · next hmark =>
              have hword : ¬ (c = '/' ∧ word.head? = some ']') := by
                rintro ⟨rfl, hhead⟩
                exact hmark ⟨rfl, by rw [List.head?_append, hhead]; rfl⟩
              rw [cutClose_cons, if_neg hword, ih (Option.map_eq_none_iff.mp h)]
              rfl
  | cons c before ih =>
      rw [List.cons_append, List.cons_append, cutClose_cons] at h
      split at h
      · cases h
      · exact ih (Option.map_eq_none_iff.mp h)

/-- Between two texts without the mark a character that is none of the mark makes none. -/
theorem cutClose_between {front back : List Char} {c : Char} (hslash : c ≠ '/') (hclose : c ≠ ']')
    (hfront : cutClose front = none) (hback : cutClose back = none) :
    cutClose (front ++ c :: back) = none := by
  induction front with
  | nil => rw [List.nil_append, cutClose_cons, if_neg (by simp [hslash]), hback]; rfl
  | cons d front ih =>
      rw [cutClose_cons] at hfront
      split at hfront
      · cases hfront
      · next hmark =>
          have hmark' : ¬ (d = '/' ∧ (front ++ c :: back).head? = some ']') := by
            rintro ⟨rfl, hhead⟩
            cases front with
            | nil => exact hclose (by simpa using hhead)
            | cons e front => exact hmark ⟨rfl, hhead⟩
          rw [List.cons_append, cutClose_cons, if_neg hmark', ih (Option.map_eq_none_iff.mp hfront)]
          rfl

/-- Words that close nothing close nothing together. -/
theorem cutClose_join {words : List (List Char)} (h : ∀ word ∈ words, cutClose word = none) :
    cutClose ([' '].intercalate words) = none := by
  induction words with
  | nil => rfl
  | cons word rest ih =>
      rw [List.forall_mem_cons] at h
      cases rest with
      | nil => rw [List.intercalate_singleton, h.1]
      | cons next rest =>
          rw [List.intercalate_cons_cons, List.append_assoc, List.singleton_append]
          exact cutClose_between (by decide) (by decide) h.1 (ih h.2)

/-! ## What a line is -/

/-- The two parts of a line with domains. -/
structure Brackets (raw : String) (front back : List Char) : Prop where
  text : (PyText.strip raw).toList = '[' :: '/' :: (front ++ '/' :: ']' :: back)
  domains : ∀ domain ∈ front.splitOn '/', isDomain domain = true
  unmarked : cutClose back = none
  line : '\n' ∉ back

/-- The lines of the syntax. -/
inductive Reads (raw : String) : Line → Prop where
  | comment (h : PyText.strip raw = "" ∨ "#".toList <+: (PyText.strip raw).toList) :
      Reads raw .comment
  | plain (hne : PyText.strip raw ≠ "") (hmark : marked (PyText.strip raw) = false)
      (h : ∀ word ∈ PyText.split raw, marked word = false) : Reads raw (.plain (PyText.split raw))
  | domains (front back : List Char) (h : Brackets raw front back)
      (hne : fields PyText.isSpace back ≠ []) :
      Reads raw (.domains ((front.splitOn '/').map String.ofList)
        ((fields PyText.isSpace back).map String.ofList))

/-- A line that is read is one of three kinds. -/
theorem reads_of_readLine {raw : String} {line : Line} (h : readLine raw = some line) :
    Reads raw line := by
  unfold readLine at h
  split at h
  · next htext =>
      obtain rfl : Line.comment = line := Option.some.inj h
      exact .comment (.inl (by simpa using htext))
  · next rest htext =>
      obtain rfl : Line.comment = line := Option.some.inj h
      exact .comment (.inr (by rw [htext]; exact ⟨rest, rfl⟩))
  · next rest htext =>
      split at h
      · cases h
      · next front back hcut =>
          dsimp only at h
          split at h
          · next hparts =>
              obtain rfl := Option.some.inj h
              simp only [Bool.and_eq_true, List.all_eq_true, decide_eq_true_eq] at hparts
              obtain ⟨⟨⟨hdomains, hne⟩, hback⟩, hline⟩ := hparts
              rw [eq_of_cutClose hcut] at htext
              exact .domains front back ⟨htext, hdomains, hback, hline⟩ hne
          · cases h
  · next hempty hcomment hopen =>
      split at h
      · cases h
      · next hmarked =>
          obtain rfl := Option.some.inj h
          refine .plain (fun hstrip => hempty (by rw [hstrip]; rfl)) ?_ (by simpa using hmarked)
          rw [marked_eq_false]
          exact ⟨fun ⟨rest, hrest⟩ => hcomment rest hrest.symm,
            fun ⟨rest, hrest⟩ => hopen rest hrest.symm⟩

/-- The upstreams of a line are words. -/
theorem words_of_domains {raw : String} {ds us : List String}
    (h : readLine raw = some (.domains ds us)) :
    ∀ u ∈ us, (∀ c ∈ u.toList, PyText.isSpace c = false) ∧ u.toList ≠ [] := by
  cases reads_of_readLine h with
  | domains front back hbrackets hne =>
      rw [List.forall_mem_map]
      intro word hword
      obtain ⟨hnil, hpiece⟩ := PyText.mem_fields.mp hword
      rw [String.toList_ofList]
      exact ⟨hpiece.1, hnil⟩

/-- Domains have neither gaps nor brackets. -/
theorem isDomain_free {domain : List Char} (h : isDomain domain = true) :
    ∀ c ∈ domain, PyText.isGap c = false ∧ c ≠ '[' ∧ c ≠ ']' := by
  unfold isDomain at h
  rw [List.all_eq_true] at h
  intro c hc
  have hgood := h c hc
  simp only [Bool.not_eq_true', Bool.or_eq_false_iff, decide_eq_false_iff_not] at hgood
  exact ⟨hgood.1.1, hgood.1.2, hgood.2⟩

/-- The characters of the domains are slashes and characters of a domain. -/
theorem front_free {front : List Char} (h : ∀ domain ∈ front.splitOn '/', isDomain domain = true) :
    ∀ c ∈ front, PyText.isGap c = false ∧ c ≠ '[' ∧ c ≠ ']' := by
  intro c hc
  by_cases hslash : c = '/'
  · subst hslash
    decide
  · have hno : (c == '/') = false := by simpa using hslash
    obtain ⟨domain, hdomain, hmem⟩ := @exists_piece _ (· == '/') _ _ hno hc
    exact isDomain_free (h domain hdomain) c hmem

/-- What a line in brackets is read as. -/
theorem readLine_brackets {raw : String} {front back : List Char} (h : Brackets raw front back) :
    readLine raw = if fields PyText.isSpace back = [] then none
      else some (.domains ((front.splitOn '/').map String.ofList)
        ((fields PyText.isSpace back).map String.ofList)) := by
  have hfront : ']' ∉ front := fun hmem => (front_free h.domains _ hmem).2.2 rfl
  have hdomains : (front.splitOn '/').all isDomain = true := List.all_eq_true.mpr h.domains
  unfold readLine
  rw [h.text]
  simp only [cutClose_append hfront, hdomains, h.unmarked, h.line]
  by_cases hne : fields PyText.isSpace back = [] <;> simp [hne]

/-! ## Lines put together -/

/-- A word of a line. -/
structure IsWord (word : String) : Prop where
  free : ∀ c ∈ word.toList, PyText.isSpace c = false
  ne : word.toList ≠ []

/-- A word of a text is a word. -/
theorem isWord_of_mem {word text : String} (h : word ∈ PyText.split text) : IsWord word := by
  obtain ⟨hne, hpiece⟩ := PyText.mem_fields.mp (PyText.mem_split.mp h)
  exact ⟨hpiece.1, hne⟩

theorem IsWord.strip {word : String} (h : IsWord word) : PyText.strip word = word := by
  rw [PyText.strip, PyText.stripBy_eq_self h.free, String.ofList_toList]

theorem IsWord.split {word : String} (h : IsWord word) : PyText.split word = [word] := by
  rw [PyText.split, fields_of_free h.free h.ne, List.map_singleton, String.ofList_toList]

theorem newline_not_mem {word : List Char} (h : ∀ c ∈ word, PyText.isSpace c = false) :
    '\n' ∉ word := fun hmem => absurd (h _ hmem) (by decide)

/-- A word without a mark is an upstream. -/
theorem readLine_word {word : String} (h : IsWord word) (hmark : marked word = false) :
    readLine word = some (.plain [word]) := by
  have hboth := marked_eq_false.mp hmark
  unfold readLine
  rw [h.strip]
  split
  · next htext => exact absurd htext h.ne
  · next rest htext => exact absurd ⟨rest, htext.symm⟩ hboth.1
  · next rest htext => exact absurd ⟨rest, htext.symm⟩ hboth.2
  · rw [h.split]
    simp [hmark]

/-- A word with the mark of a comment is one. -/
theorem readLine_comment {word : String} (h : IsWord word) (hmark : "#".toList <+: word.toList) :
    readLine word = some .comment := by
  obtain ⟨rest, hrest⟩ := hmark
  unfold readLine
  rw [h.strip, ← hrest]
  rfl

/-- A word that opens domains without closing them is none of the syntax. -/
theorem readLine_open {word : String} (h : IsWord word) (hmark : "[/".toList <+: word.toList)
    (hopen : cutClose word.toList = none) : readLine word = none := by
  obtain ⟨rest, hrest⟩ := hmark
  have hcut : cutClose rest = none := by
    apply @cutClose_stretch "[/".toList _ []
    rwa [List.append_nil, hrest]
  have htext : word.toList = '[' :: '/' :: rest := hrest.symm
  unfold readLine
  rw [h.strip, htext]
  simp only [hcut]

/-- What is glued to the empty domain stands behind its brackets. -/
theorem brackets_glued {glued : List Char} (hfree : ∀ c ∈ glued, PyText.isSpace c = false)
    (hopen : cutClose glued = none) : Brackets (String.ofList ("[//]".toList ++ glued)) [] glued where
  text := by
    have hmark : ∀ c ∈ "[//]".toList, PyText.isSpace c = false :=
      List.all_iff_forall_prop.mp (by decide)
    have hword : ∀ c ∈ "[//]".toList ++ glued, PyText.isSpace c = false := by
      intro c hc
      rcases List.mem_append.mp hc with hc | hc
      · exact hmark c hc
      · exact hfree c hc
    rw [PyText.strip, String.toList_ofList, String.toList_ofList, PyText.stripBy_eq_self hword]
    rfl
  domains := by decide
  unmarked := hopen
  line := newline_not_mem hfree

section Entries

variable {domains upstreams : List String}

/-- Domains as a line holds them. -/
def AreDomains (domains : List String) : Prop :=
  ∀ domain ∈ domains, isDomain domain.toList = true ∧ '/' ∉ domain.toList

/-- Domains that were joined are divided again. -/
theorem splitOn_join (hne : domains ≠ []) (h : AreDomains domains) :
    (['/'].intercalate (domains.map String.toList)).splitOn '/' = domains.map String.toList := by
  apply List.splitOn_intercalate
  · rw [List.forall_mem_map]
    exact fun domain hdomain => (h domain hdomain).2
  · simpa using hne

/-- Words joined by spaces are divided into the same words. -/
theorem fields_joined (h : ∀ word ∈ upstreams, IsWord word) :
    fields PyText.isSpace ([' '].intercalate (upstreams.map String.toList)) =
      upstreams.map String.toList := by
  apply fields_intercalate (by decide)
  · rw [List.forall_mem_map]
    exact fun word hword => (h word hword).free
  · rw [List.forall_mem_map]
    exact fun word hword => (h word hword).ne

/-- The entry of a forward zone is a line in brackets. -/
theorem brackets_forwardEntry (hdomains : domains ≠ []) (hvalid : AreDomains domains)
    (hne : upstreams ≠ []) (hwords : ∀ word ∈ upstreams, IsWord word)
    (hopen : ∀ word ∈ upstreams, cutClose word.toList = none) :
    Brackets (forwardEntry domains upstreams) (['/'].intercalate (domains.map String.toList))
      ([' '].intercalate (upstreams.map String.toList)) where
  text := by
    have htext : (forwardEntry domains upstreams).toList =
        '[' :: '/' :: (['/'].intercalate (domains.map String.toList) ++
          '/' :: ']' :: [' '].intercalate (upstreams.map String.toList)) := by
      simp [forwardEntry, String.toList_intercalate]
    have hback : [' '].intercalate (upstreams.map String.toList) ≠ [] := by
      intro hnil
      have hfields := fields_joined hwords
      rw [hnil, fields_nil] at hfields
      exact hne (List.map_eq_nil_iff.mp hfields.symm)
    have hlast : ∀ c ∈ (forwardEntry domains upstreams).toList.getLast?,
        PyText.isSpace c = false := by
      have hsplit : (forwardEntry domains upstreams).toList =
          ('[' :: '/' :: (['/'].intercalate (domains.map String.toList) ++ ['/', ']'])) ++
            [' '].intercalate (upstreams.map String.toList) := by
        rw [htext]
        simp
      rw [hsplit, List.getLast?_append_of_ne_nil _ hback]
      apply getLast_intercalate
      · rw [List.forall_mem_map]
        exact fun word hword => (hwords word hword).free
      · rw [List.forall_mem_map]
        exact fun word hword => (hwords word hword).ne
    have hfirst : ∀ c ∈ (forwardEntry domains upstreams).toList.head?,
        PyText.isSpace c = false := by
      rw [htext]
      intro c hc
      obtain rfl : '[' = c := by simpa using hc
      decide
    rw [PyText.strip, PyText.stripBy_eq_self_of_ends hfirst hlast, String.toList_ofList, htext]
  domains := by
    rw [splitOn_join hdomains hvalid, List.forall_mem_map]
    exact fun domain hdomain => (hvalid domain hdomain).1
  unmarked := by
    apply cutClose_join
    rw [List.forall_mem_map]
    exact hopen
  line := by
    intro hmem
    rcases mem_intercalate hmem with hgap | ⟨text, htext, hc⟩
    · simp at hgap
    · obtain ⟨word, hword, rfl⟩ := List.mem_map.mp htext
      exact newline_not_mem (hwords word hword).free hc

/-- A line made of domains and words is read as these. -/
theorem readLine_forwardEntry (hdomains : domains ≠ []) (hvalid : AreDomains domains)
    (hne : upstreams ≠ []) (hwords : ∀ word ∈ upstreams, IsWord word)
    (hopen : ∀ word ∈ upstreams, cutClose word.toList = none) :
    readLine (forwardEntry domains upstreams) = some (.domains domains upstreams) := by
  have hback : upstreams.map String.toList ≠ [] := by simpa using hne
  rw [readLine_brackets (brackets_forwardEntry hdomains hvalid hne hwords hopen),
    splitOn_join hdomains hvalid, fields_joined hwords, if_neg hback]
  simp [List.map_map, Function.comp_def]

end Entries

end AdguardAdmin.UpstreamSyntax
