import Mathlib.Data.Bool.AllAny
import AdguardAdmin.UpstreamImports
/-!
# The meaning of upstreams that were imported

Only domains that are not empty get a row of their own.  A line for unqualified names is
kept because its first word, with the mark, is taken for an upstream as it stands; the words
after it come to be upstreams for everything.

* `meaning_iff` — which lists of lines still mean the same after an import, and that nothing
  is imported twice.
-/

namespace AdguardAdmin.UpstreamImports

open Fields InsertMissing UpstreamSyntax

/-! ## Which lines have a row of their own -/

/-- A line with domains has no list of addresses behind an empty one. -/
theorem addrsAfterClose_eq_none {text front back : List Char}
    (h : cutClose text = some (front, back)) (hne : front ≠ []) : addrsAfterClose text = none := by
  unfold addrsAfterClose
  split
  · next rest =>
      obtain ⟨rfl, -⟩ : [] = front ∧ rest = back := by simpa [cutClose] using h
      exact absurd rfl hne
  · rfl

/-- A line without brackets has no domains. -/
theorem lazyDomains_eq_none {text : List Char} (h : cutClose text = none) :
    lazyDomains text = none := by
  induction text with
  | nil => rfl
  | cons c rest ih =>
      have hrest : cutClose rest = none := by
        rw [cutClose_cons] at h
        split at h
        · cases h
        · exact Option.map_eq_none_iff.mp h
      have haddrs : addrsAfterClose rest = none := by
        unfold addrsAfterClose
        split
        · cases hrest
        · rfl
      rw [lazyDomains, haddrs]
      simp [ih hrest]

/-- The domains end at the first mark, if there are any. -/
theorem lazyDomains_append {front back : List Char} (hne : front ≠ []) (hclose : ']' ∉ front)
    (hline : '\n' ∉ front) (hback : back.dropWhile PyText.isSpace ≠ [])
    (hbackLine : '\n' ∉ back) :
    lazyDomains (front ++ '/' :: ']' :: back) = some (front, back.dropWhile PyText.isSpace) := by
  induction front with
  | nil => exact absurd rfl hne
  | cons c rest ih =>
      rw [List.mem_cons, not_or] at hclose hline
      rw [List.cons_append, lazyDomains, if_neg (fun h => hline.1 h.symm)]
      cases rest with
      | nil =>
          have hline' : '\n' ∉ back.dropWhile PyText.isSpace :=
            fun hmem => hbackLine ((List.dropWhile_sublist _).subset hmem)
          rw [List.nil_append, addrsAfterClose]
          simp [hback, hline']
      | cons d rest =>
          have hcut := cutClose_append hclose.2 back
          rw [addrsAfterClose_eq_none hcut (by simp), ih (by simp) hclose.2 hline.2]
          rfl

section Brackets

variable {raw : String} {front back : List Char}

/-- A line for unqualified names alone is not taken for one with domains. -/
theorem matchForward_unqualified (h : Brackets raw [] back) :
    matchForward (PyText.strip raw).toList = none := by
  have hback : cutClose (']' :: back) = none := by
    rw [cutClose_cons, if_neg (by simp), h.unmarked]
    rfl
  rw [h.text, matchForward, List.nil_append, lazyDomains]
  simp [addrsAfterClose, lazyDomains_eq_none hback]

/-- A line with domains and upstreams is taken for a forward zone. -/
theorem matchForward_domains (h : Brackets raw front back) (hne : front ≠ [])
    (hback : fields PyText.isSpace back ≠ []) :
    matchForward (PyText.strip raw).toList = some (front, back.dropWhile PyText.isSpace) := by
  have hclose : ']' ∉ front := fun hmem => (front_free h.domains _ hmem).2.2 rfl
  have hline : '\n' ∉ front := fun hmem =>
    absurd (front_free h.domains _ hmem).1 (by decide)
  have haddrs : back.dropWhile PyText.isSpace ≠ [] := by
    intro hnil
    rw [← fields_dropWhile, hnil] at hback
    exact hback rfl
  rw [h.text, matchForward]
  exact lazyDomains_append hne hclose hline haddrs h.line

end Brackets

/-- An unmarked line is not taken for one with domains. -/
theorem matchForward_unmarked {text : String} (h : marked text = false) :
    matchForward text.toList = none := by
  rw [marked_eq_false] at h
  unfold matchForward
  split
  · next rest htext => exact absurd ⟨rest, htext.symm⟩ h.2
  · rfl

/-! ## Lines for unqualified names -/

/-- The line is for unqualified names alone. -/
def ForUnqualified (raw : String) : Prop := "[//]".toList <+: (PyText.strip raw).toList

instance (raw : String) : Decidable (ForUnqualified raw) := inferInstanceAs (Decidable (_ <+: _))

section Unqualified

variable {raw : String} {back : List Char}

/-- A line is for unqualified names when nothing stands between its slashes. -/
theorem forUnqualified_iff {line : Line} (h : readLine raw = some line) :
    ForUnqualified raw ↔ ∃ back, Brackets raw [] back ∧ fields PyText.isSpace back ≠ [] := by
  constructor
  · rintro ⟨rest, hrest⟩
    cases reads_of_readLine h with
    | comment hskip =>
        rcases hskip with hempty | ⟨tail, htail⟩
        · rw [hempty] at hrest
          cases hrest
        · rw [← hrest] at htail
          cases htail
    | plain hne hmark hwords =>
        exact absurd ⟨'/' :: ']' :: rest, hrest⟩ (marked_eq_false.mp hmark).2
    | domains front back hbrackets hne =>
        cases front with
        | nil => exact ⟨back, hbrackets, hne⟩
        | cons c front =>
            -- the second bracket would belong to a domain
            have hclose : ']' ∉ c :: front :=
              fun hmem => (front_free hbrackets.domains _ hmem).2.2 rfl
            have htext := hbrackets.text
            rw [← hrest] at htext
            have hfront : '/' :: ']' :: rest = c :: (front ++ '/' :: ']' :: back) := by
              simpa using htext
            cases front with
            | nil => simp at hfront
            | cons d front =>
                obtain rfl : ']' = d := by simpa using (List.cons.inj (List.cons.inj hfront).2).1
                exact absurd (by simp) hclose
  · rintro ⟨back, hbrackets, -⟩
    exact ⟨back, hbrackets.text.symm⟩

/-- The words of such a line; the mark belongs to the first. -/
theorem split_unqualified (h : Brackets raw [] back) :
    PyText.split raw = String.ofList ("[//]".toList ++ back.takeWhile (!PyText.isSpace ·)) ::
      PyText.split (String.ofList (back.dropWhile (!PyText.isSpace ·))) := by
  have htext : (PyText.strip raw).toList = "[//]".toList ++ back := h.text
  have hmark : ∀ c ∈ "[//]".toList, PyText.isSpace c = false :=
    List.all_iff_forall_prop.mp (by decide)
  have hrest : PyText.split (String.ofList (back.dropWhile (!PyText.isSpace ·))) =
      (fields PyText.isSpace (back.dropWhile (!PyText.isSpace ·))).map String.ofList := by
    rw [PyText.split, String.toList_ofList]
  rw [← PyText.split_strip, PyText.split, htext, fields_glue hmark (by decide), List.map_cons,
    hrest]

/-- A line whose brackets are empty is read as one for the empty domain. -/
theorem readLine_unqualified (h : Brackets raw [] back) (hne : fields PyText.isSpace back ≠ []) :
    readLine raw = some (.domains [""] (PyText.split (String.ofList back))) := by
  rw [readLine_brackets h, if_neg hne, PyText.split, String.toList_ofList]
  rfl

/-- The words behind the mark are the one glued to it and those of the rest. -/
theorem mem_glued {u : String} : u ∈ PyText.split (String.ofList back) ↔
    (u = String.ofList (back.takeWhile (!PyText.isSpace ·)) ∧ u ≠ "") ∨
      u ∈ PyText.split (String.ofList (back.dropWhile (!PyText.isSpace ·))) := by
  have hfree : ∀ c ∈ back.takeWhile (!PyText.isSpace ·), PyText.isSpace c = false := by
    intro c hc
    simpa using List.mem_takeWhile_imp hc
  have hrest : ∀ c ∈ (back.dropWhile (!PyText.isSpace ·)).head?, PyText.isSpace c = true := by
    intro c hc
    have hnot := List.head?_dropWhile_not (!PyText.isSpace ·) back
    rw [hc] at hnot
    simpa using hnot
  have hsplit := List.takeWhile_append_dropWhile (p := (!PyText.isSpace ·)) (l := back)
  by_cases hempty : back.takeWhile (!PyText.isSpace ·) = []
  · rw [hempty, List.nil_append] at hsplit
    rw [hsplit, hempty]
    constructor
    · exact .inr
    · rintro (⟨rfl, hne⟩ | hin)
      · exact absurd rfl hne
      · exact hin
  · have hfields := fields_append hfree hempty hrest
    rw [hsplit] at hfields
    have hne : String.ofList (back.takeWhile (!PyText.isSpace ·)) ≠ "" := by simpa using hempty
    rw [PyText.split, String.toList_ofList, hfields, List.map_cons, List.mem_cons, PyText.split,
      String.toList_ofList]
    constructor
    · rintro (rfl | hin)
      · exact .inl ⟨rfl, hne⟩
      · exact .inr hin
    · rintro (⟨rfl, -⟩ | hin)
      · exact .inl rfl
      · exact .inr hin

/-- No word of the line closes a list of domains. -/
theorem cutClose_of_mem {u : String} (h : cutClose back = none)
    (hu : u ∈ PyText.split (String.ofList back)) : cutClose u.toList = none := by
  obtain ⟨-, -, before, rest, htext, -⟩ := PyText.mem_fields.mp (PyText.mem_split.mp hu)
  rw [String.toList_ofList] at htext
  rw [htext] at h
  exact cutClose_stretch h

end Unqualified

/-! ## Lines of the syntax -/

section Lines

variable {raw : String} {line : Line}

/-- A line with brackets counts. -/
theorem counts_brackets {front back : List Char} (h : Brackets raw front back) : Counts raw := by
  rintro (hempty | ⟨tail, htail⟩)
  · have htext := h.text
    rw [hempty] at htext
    cases htext
  · rw [h.text] at htail
    cases htail

/-- The words of a line for everything, none of them marked. -/
theorem plainOf_of_plain {us : List String} {u : String} (h : readLine raw = some (.plain us))
    (hu : u ∈ us) : PlainOf raw u ∧ marked u = false := by
  cases reads_of_readLine h with
  | plain hne hmark hwords =>
      refine ⟨⟨?_, matchForward_unmarked hmark, hu⟩, hwords u hu⟩
      rintro (hempty | hcomment)
      · exact hne hempty
      · exact (marked_eq_false.mp hmark).1 hcomment

/-- The words of a line for unqualified names become plain upstreams. -/
theorem plainOf_of_unqualified {word : String} (hread : readLine raw = some line)
    (h : ForUnqualified raw) (hword : word ∈ PyText.split raw) : PlainOf raw word := by
  obtain ⟨back, hbrackets, -⟩ := (forUnqualified_iff hread).mp h
  exact ⟨counts_brackets hbrackets, matchForward_unqualified hbrackets, hword⟩

/-- What goes among the upstreams for everything. -/
theorem plain_cases {word : String} (hread : readLine raw = some line) (h : PlainOf raw word) :
    (readLine raw = some (.plain (PyText.split raw)) ∧ word ∈ PyText.split raw ∧
      marked word = false) ∨ (ForUnqualified raw ∧ word ∈ PyText.split raw) := by
  obtain ⟨hcounts, hmatch, hword⟩ := h
  cases reads_of_readLine hread with
  | comment hskip => exact absurd hskip hcounts
  | plain hne hmark hwords => exact .inl ⟨hread, hword, hwords word hword⟩
  | domains front back hbrackets hne =>
      by_cases hfront : front = []
      · subst hfront
        exact .inr ⟨(forUnqualified_iff hread).mpr ⟨back, hbrackets, hne⟩, hword⟩
      · rw [matchForward_domains hbrackets hfront hne] at hmatch
        cases hmatch

/-- A line with domains, and what the import makes of it. -/
theorem forwardOf_cases {ds : List String} {u : String} (hread : readLine raw = some line)
    (h : ForwardOf raw ds u) : ∃ front back, Brackets raw front back ∧ front ≠ [] ∧
      readLine raw = some (.domains ((front.splitOn '/').map String.ofList)
        (PyText.split (String.ofList back))) ∧
      ds = (fields (· == '/') front).map String.ofList ∧ u ∈ PyText.split (String.ofList back) := by
  obtain ⟨hcounts, front', addrs, hmatch, hds, hu⟩ := h
  cases reads_of_readLine hread with
  | comment hskip => exact absurd hskip hcounts
  | plain hne hmark hwords =>
      rw [matchForward_unmarked hmark] at hmatch
      cases hmatch
  | domains front back hbrackets hne =>
      by_cases hfront : front = []
      · subst hfront
        rw [matchForward_unqualified hbrackets] at hmatch
        cases hmatch
      · rw [matchForward_domains hbrackets hfront hne] at hmatch
        obtain ⟨rfl, rfl⟩ : front = front' ∧ back.dropWhile PyText.isSpace = addrs := by
          simpa using hmatch
        refine ⟨front, back, hbrackets, hfront, ?_, hds, ?_⟩
        · rw [hread, PyText.split, String.toList_ofList]
        · rwa [PyText.split, String.toList_ofList, fields_dropWhile, ← String.toList_ofList (l := back),
            ← PyText.split] at hu

/-- The domains of a line are its parts that are not empty. -/
theorem mem_domains {front : List Char} {d : String} :
    d ∈ (fields (· == '/') front).map String.ofList ↔
      d ∈ (front.splitOn '/').map String.ofList ∧ d ≠ "" := by
  rw [List.mem_map, List.mem_map, List.splitOn_eq_splitOnP, fields]
  constructor
  · rintro ⟨piece, hpiece, rfl⟩
    rw [List.mem_filter] at hpiece
    exact ⟨⟨piece, hpiece.1, rfl⟩, by simpa using hpiece.2⟩
  · rintro ⟨⟨piece, hpiece, rfl⟩, hne⟩
    exact ⟨piece, List.mem_filter.mpr ⟨hpiece, by simpa using hne⟩, rfl⟩

/-- A line forwards a domain exactly when it is read as one that does. -/
theorem forward_iff {d u : String} (hread : readLine raw = some line) :
    (∃ ds, ForwardOf raw ds u ∧ d ∈ ds) ↔
      ∃ ds us, readLine raw = some (.domains ds us) ∧ d ∈ ds ∧ d ≠ "" ∧ u ∈ us := by
  constructor
  · rintro ⟨ds, hforward, hd⟩
    obtain ⟨front, back, -, -, hline, rfl, hu⟩ := forwardOf_cases hread hforward
    exact ⟨_, _, hline, (mem_domains.mp hd).1, (mem_domains.mp hd).2, hu⟩
  · rintro ⟨ds, us, hline, hd, hne, hu⟩
    cases reads_of_readLine hline with
    | domains front back hbrackets hback =>
        by_cases hfront : front = []
        · subst hfront
          obtain rfl : d = "" := by simpa using hd
          exact absurd rfl hne
        · refine ⟨_, ⟨counts_brackets hbrackets, front, _,
            matchForward_domains hbrackets hfront hback, rfl, ?_⟩, mem_domains.mpr ⟨hd, hne⟩⟩
          rwa [PyText.split, String.toList_ofList, fields_dropWhile]

/-- The domains and the words of a line, as they are stored. -/
theorem forward_valid {ds : List String} {u : String} (hread : readLine raw = some line)
    (h : ForwardOf raw ds u) : AreDomains ds ∧ IsWord u ∧ cutClose u.toList = none := by
  obtain ⟨front, back, hbrackets, -, -, rfl, hu⟩ := forwardOf_cases hread h
  refine ⟨?_, isWord_of_mem hu, cutClose_of_mem hbrackets.unmarked hu⟩
  intro d hd
  obtain ⟨piece, hpiece, rfl⟩ := List.mem_map.mp hd
  rw [String.toList_ofList]
  constructor
  · have hsplit : piece ∈ front.splitOn '/' := by
      rw [fields, List.mem_filter] at hpiece
      exact hpiece.1
    exact hbrackets.domains piece hsplit
  · intro hslash
    have hfree := (PyText.mem_fields.mp hpiece).2.1 '/' hslash
    simp at hfree

end Lines

/-! ## What the lines made mean -/

section Meaning

variable {server : Server} {info : DnsInfo} {db : ConfigTables} {lines : List String}

theorem reads_of_inSyntax (hinput : InSyntax lines) {raw : String} (h : raw ∈ lines) :
    ∃ line, readLine raw = some line := Option.isSome_iff_exists.mp (hinput raw h)

/-- The domains of a forward zone are domains, and its upstreams words. -/
theorem domains_of_forwardOf (hinput : InSyntax lines) {ds : List String} {u : String}
    (h : ∃ raw ∈ lines, ForwardOf raw ds u) :
    AreDomains ds ∧ (∀ d ∈ ds, d ≠ "") ∧ IsWord u ∧ cutClose u.toList = none := by
  obtain ⟨raw, hraw, hforward⟩ := h
  obtain ⟨line, hread⟩ := reads_of_inSyntax hinput hraw
  obtain ⟨hdomains, hword, hopen⟩ := forward_valid hread hforward
  obtain ⟨-, _, _, -, rfl, -⟩ := hforward
  exact ⟨hdomains, fun d hd => (mem_domains.mp hd).2, hword, hopen⟩

/-- The lines made: the words for everything, and one for each list of domains. -/
theorem mem_desired (hinfo : info.upstreamDns = lines.map some) (hinput : InSyntax lines)
    (hnone : NoMatching server db) {made : String} :
    made ∈ desiredUpstreamsForServer (insertSettings .server server info db) server ↔
      (∃ raw ∈ lines, PlainOf raw made) ∨
      ∃ entry ∈ (parseUpstreams (lines.map some)).forwards, entry.1 ≠ [] ∧
        PyText.words (" ".intercalate entry.2) ≠ [] ∧
        made = forwardEntry entry.1 (PyText.words (" ".intercalate entry.2)) := by
  have hparsed := parsedFrom lines
  have hplain : ∀ addr ∈ (parseUpstreams info.upstreamDns).plain, IsWord addr := by
    intro addr haddr
    rw [hinfo] at haddr
    obtain ⟨raw, -, -, -, hword⟩ := (hparsed.plain addr).mp haddr
    exact isWord_of_mem hword
  have hwords : ∀ entry ∈ (parseUpstreams info.upstreamDns).forwards,
      PyText.words (" ".intercalate entry.1) = entry.1 := by
    intro entry hentry
    rw [hinfo] at hentry
    obtain ⟨u, hu⟩ := List.exists_mem_of_ne_nil _ (hparsed.filled entry hentry)
    have hforward := (hparsed.forwards entry.1 u).mp ⟨entry.2, hentry, hu⟩
    obtain ⟨hdomains, hne, -⟩ := domains_of_forwardOf hinput hforward
    exact words_domains hdomains hne
  have hkeys : ((parseUpstreams info.upstreamDns).forwards.map Prod.fst).Nodup := by
    rw [hinfo]
    exact hparsed.keys
  unfold desiredUpstreamsForServer
  rw [mem_dedupe, List.mem_append, mem_addresses_inserted hnone hplain, List.mem_map]
  rw [hinfo, hparsed.plain made]
  constructor
  · rintro ⟨hraw | ⟨row, hrow, rfl⟩, -⟩
    · exact .inl hraw
    · right
      simp only [List.mem_filter, Bool.and_eq_true, decide_eq_true_eq] at hrow
      obtain ⟨hrow, ⟨⟨-, hscope⟩, hdomains⟩, hupstreams⟩ := hrow
      obtain ⟨entry, hentry, rfl⟩ := (mem_forwards_inserted hnone hkeys hwords).mp ⟨hrow, hscope⟩
      have htext := hwords entry hentry
      dsimp only [forwardOf] at hdomains hupstreams ⊢
      rw [htext] at hdomains ⊢
      rw [hinfo] at hentry
      exact ⟨entry, hentry, hdomains, hupstreams, rfl⟩
  · rintro (⟨raw, hraw, hplainOf⟩ | ⟨entry, hentry, hdomains, hupstreams, rfl⟩)
    · refine ⟨.inl ⟨raw, hraw, hplainOf⟩, ?_⟩
      have hne := (isWord_of_mem hplainOf.2.2).ne
      simpa using hne
    · rw [← hinfo] at hentry
      have htext := hwords entry hentry
      obtain ⟨hrow, hscope⟩ := (mem_forwards_inserted hnone hkeys hwords).mpr ⟨entry, hentry, rfl⟩
      refine ⟨.inr ⟨forwardOf .server server entry, List.mem_filter.mpr ⟨hrow, ?_⟩, ?_⟩, ?_⟩
      · dsimp only [forwardOf] at hscope ⊢
        simp [hscope, htext, hdomains, hupstreams]
      · dsimp only [forwardOf]
        rw [htext]
      · intro hempty
        have hlength := congrArg String.length hempty
        simp [forwardEntry] at hlength

/-- The lists of domains that lines are made for, with what they are read as. -/
theorem readLine_entry (hinput : InSyntax lines) {entry : List String × List String}
    (hentry : entry ∈ (parseUpstreams (lines.map some)).forwards) (hdomains : entry.1 ≠ [])
    (hupstreams : PyText.words (" ".intercalate entry.2) ≠ []) :
    readLine (forwardEntry entry.1 (PyText.words (" ".intercalate entry.2))) =
      some (.domains entry.1 (PyText.words (" ".intercalate entry.2))) := by
  have hparsed := parsedFrom lines
  obtain ⟨u, hu⟩ := List.exists_mem_of_ne_nil _ (hparsed.filled entry hentry)
  have hforward := (hparsed.forwards entry.1 u).mp ⟨entry.2, hentry, hu⟩
  have hvalid : ∀ v ∈ PyText.words (" ".intercalate entry.2),
      IsWord v ∧ ',' ∉ v.toList ∧ cutClose v.toList = none := by
    intro v hv
    obtain ⟨w, hw, hvw⟩ := mem_words_join.mp hv
    have hfrom := (hparsed.forwards entry.1 w).mp ⟨entry.2, hentry, hw⟩
    exact isWord_of_words (domains_of_forwardOf hinput hfrom).2.2.2 hvw
  exact readLine_forwardEntry hdomains (domains_of_forwardOf hinput hforward).1 hupstreams
    (fun v hv => (hvalid v hv).1) fun v hv => (hvalid v hv).2.2

variable (hinfo : info.upstreamDns = lines.map some) (hinput : InSyntax lines)
variable (hnone : NoMatching server db)

include hinfo hinput hnone

/-- What the lines made denote, word by word and zone by zone. -/
theorem denotes_iff {pair : Selector × String} :
    pair ∈ denotation (desiredUpstreamsForServer (insertSettings .server server info db) server) ↔
      (∃ raw ∈ lines, ∃ word, PlainOf raw word ∧
        ∃ line, readLine word = some line ∧ pair ∈ line.pairs) ∨
      ∃ raw ∈ lines, ∃ ds u, ForwardOf raw ds u ∧ ∃ d ∈ ds, ∃ v ∈ PyText.words u,
        pair = (.domain d, v) := by
  have hparsed := parsedFrom lines
  rw [mem_denotation_iff]
  constructor
  · rintro ⟨made, hmade, line, hread, hpair⟩
    rcases (mem_desired hinfo hinput hnone).mp hmade with ⟨raw, hraw, hplain⟩ | hentry
    · exact .inl ⟨raw, hraw, made, hplain, line, hread, hpair⟩
    · obtain ⟨entry, hentry, hdomains, hupstreams, rfl⟩ := hentry
      rw [readLine_entry hinput hentry hdomains hupstreams] at hread
      obtain rfl := Option.some.inj hread
      obtain ⟨d, hd, hpair⟩ := List.mem_flatMap.mp hpair
      obtain ⟨v, hv, rfl⟩ := List.mem_map.mp hpair
      obtain ⟨u, hu, hvu⟩ := mem_words_join.mp hv
      obtain ⟨raw, hraw, hforward⟩ := (hparsed.forwards entry.1 u).mp ⟨entry.2, hentry, hu⟩
      have hne := (domains_of_forwardOf hinput ⟨raw, hraw, hforward⟩).2.1 d hd
      exact .inr ⟨raw, hraw, entry.1, u, hforward, d, hd, v, hvu, by rw [selector, if_neg hne]⟩
  · rintro (⟨raw, hraw, word, hplain, line, hread, hpair⟩ | hforward)
    · exact ⟨word, (mem_desired hinfo hinput hnone).mpr (.inl ⟨raw, hraw, hplain⟩), line, hread,
        hpair⟩
    · obtain ⟨raw, hraw, ds, u, hforward, d, hd, v, hv, rfl⟩ := hforward
      have hne := (domains_of_forwardOf hinput ⟨raw, hraw, hforward⟩).2.1 d hd
      obtain ⟨us, hentry, hu⟩ := (hparsed.forwards ds u).mpr ⟨raw, hraw, hforward⟩
      have hword : v ∈ PyText.words (" ".intercalate us) := mem_words_join.mpr ⟨u, hu, hv⟩
      have hdomains : ds ≠ [] := List.ne_nil_of_mem hd
      have hupstreams := List.ne_nil_of_mem hword
      refine ⟨_, (mem_desired hinfo hinput hnone).mpr
        (.inr ⟨(ds, us), hentry, hdomains, hupstreams, rfl⟩), _,
        readLine_entry hinput hentry hdomains hupstreams, ?_⟩
      refine List.mem_flatMap.mpr ⟨d, hd, List.mem_map.mpr ⟨v, hword, ?_⟩⟩
      rw [selector, if_neg hne]

/-- AdGuard accepts the lines made where it reads each word that is taken for an upstream. -/
theorem accepted_iff :
    InSyntax (desiredUpstreamsForServer (insertSettings .server server info db) server) ↔
      ∀ raw ∈ lines, ∀ word, PlainOf raw word → (readLine word).isSome := by
  constructor
  · intro hmade raw hraw word hplain
    exact hmade word ((mem_desired hinfo hinput hnone).mpr (.inl ⟨raw, hraw, hplain⟩))
  · intro hwords made hmade
    rcases (mem_desired hinfo hinput hnone).mp hmade with ⟨raw, hraw, hplain⟩ | hentry
    · exact hwords raw hraw made hplain
    · obtain ⟨entry, hentry, hdomains, hupstreams, rfl⟩ := hentry
      rw [readLine_entry hinput hentry hdomains hupstreams]
      rfl

end Meaning

/-! ## When the meaning is kept -/

section Words

variable {raw word : String} {line : Line}

/-- The words of a line for unqualified names: the first, with the mark, and the others. -/
theorem word_cases (hread : readLine raw = some line) (h : ForUnqualified raw) :
    ∃ glued rest, PyText.split raw = ("[//]" ++ glued) :: rest ∧
      readLine ("[//]" ++ glued) =
        (if glued = "" then none else some (.domains [""] [glued])) ∧
      (∀ w ∈ rest, IsWord w ∧ cutClose w.toList = none) ∧
      ∃ us, readLine raw = some (.domains [""] us) ∧
        ∀ u, u ∈ us ↔ (u = glued ∧ u ≠ "") ∨ u ∈ rest := by
  obtain ⟨back, hbrackets, hne⟩ := (forUnqualified_iff hread).mp h
  have hmark : ∀ glued : List Char,
      "[//]" ++ String.ofList glued = String.ofList ("[//]".toList ++ glued) := by
    intro glued
    rw [String.ofList_append, String.ofList_toList]
  have hfree : ∀ c ∈ back.takeWhile (!PyText.isSpace ·), PyText.isSpace c = false := by
    intro c hc
    simpa using List.mem_takeWhile_imp hc
  have hopen : cutClose (back.takeWhile (!PyText.isSpace ·)) = none := by
    apply @cutClose_stretch [] _ (back.dropWhile (!PyText.isSpace ·))
    rw [List.nil_append, List.takeWhile_append_dropWhile]
    exact hbrackets.unmarked
  refine ⟨String.ofList (back.takeWhile (!PyText.isSpace ·)),
    PyText.split (String.ofList (back.dropWhile (!PyText.isSpace ·))), ?_, ?_, ?_,
    PyText.split (String.ofList back), readLine_unqualified hbrackets hne, fun u => mem_glued⟩
  · rw [hmark, split_unqualified hbrackets]
  · rw [hmark, readLine_brackets (brackets_glued hfree hopen)]
    by_cases hempty : back.takeWhile (!PyText.isSpace ·) = []
    · rw [hempty]
      rfl
    · rw [fields_of_free hfree hempty]
      simp [hempty]
  · intro w hw
    exact ⟨isWord_of_mem hw, cutClose_of_mem hbrackets.unmarked (mem_glued.mpr (.inr hw))⟩

/-- A word that is none of the mark's: a comment, nothing that can be read, or an upstream. -/
theorem other_word_cases (h : IsWord word) (hopen : cutClose word.toList = none) :
    ("#".toList <+: word.toList ∧ readLine word = some .comment) ∨
      (¬ "#".toList <+: word.toList ∧ "[/".toList <+: word.toList ∧ readLine word = none) ∨
      (marked word = false ∧ readLine word = some (.plain [word])) := by
  by_cases hcomment : "#".toList <+: word.toList
  · exact .inl ⟨hcomment, readLine_comment h hcomment⟩
  · by_cases hbracket : "[/".toList <+: word.toList
    · exact .inr (.inl ⟨hcomment, hbracket, readLine_open h hbracket hopen⟩)
    · have hmark : marked word = false := marked_eq_false.mpr ⟨hcomment, hbracket⟩
      exact .inr (.inr ⟨hmark, readLine_word h hmark⟩)

/-- What a word that is taken for an upstream is read as. -/
theorem reads_of_plainOf {read : Line} (hread : readLine raw = some line) (h : PlainOf raw word)
    (hword : readLine word = some read) :
    read = .comment ∨
      (read = .plain [word] ∧ ((∃ us, readLine raw = some (.plain us) ∧ word ∈ us) ∨
        (ForUnqualified raw ∧ word ∈ (PyText.split raw).tail ∧ ¬ "#".toList <+: word.toList))) ∨
      ∃ glued, glued ≠ "" ∧ read = .domains [""] [glued] ∧ ForUnqualified raw ∧
        (PyText.split raw).head? = some ("[//]" ++ glued) := by
  rcases plain_cases hread h with ⟨hplain, hmem, hmark⟩ | ⟨hmark, hmem⟩
  · rw [readLine_word (isWord_of_mem hmem) hmark] at hword
    obtain rfl := Option.some.inj hword
    exact .inr (.inl ⟨rfl, .inl ⟨_, hplain, hmem⟩⟩)
  · obtain ⟨glued, rest, hsplit, hglued, hrest, -⟩ := word_cases hread hmark
    rw [hsplit] at hmem ⊢
    rcases List.mem_cons.mp hmem with rfl | hother
    · rw [hglued] at hword
      split at hword
      · cases hword
      · next hne =>
          obtain rfl := Option.some.inj hword
          exact .inr (.inr ⟨glued, hne, rfl, hmark, rfl⟩)
    · obtain ⟨hisWord, hopen⟩ := hrest word hother
      rcases other_word_cases hisWord hopen with ⟨-, hcomment⟩ | ⟨-, -, hnone⟩ | ⟨hunmarked, hplain⟩
      · rw [hcomment] at hword
        exact .inl (Option.some.inj hword).symm
      · rw [hnone] at hword
        cases hword
      · rw [hplain] at hword
        exact .inr (.inl ⟨(Option.some.inj hword).symm,
          .inr ⟨hmark, hother, (marked_eq_false.mp hunmarked).1⟩⟩)

end Words

/-- What an import keeps of lines: no comma in an upstream for a domain; every upstream for
unqualified names right after the mark of such a line; and no other word on such a line that
is not an upstream for everything. -/
structure Faithful (lines : List String) : Prop where
  commas : ∀ raw ∈ lines, ∀ ds us, readLine raw = some (.domains ds us) →
    (∃ d ∈ ds, d ≠ "") → ∀ u ∈ us, ',' ∉ u.toList
  unqualified : ∀ raw ∈ lines, ∀ ds us, readLine raw = some (.domains ds us) → "" ∈ ds →
    ∀ u ∈ us, ∃ other ∈ lines, ForUnqualified other ∧
      (PyText.split other).head? = some ("[//]" ++ u)
  glued : ∀ raw ∈ lines, ForUnqualified raw → (PyText.split raw).head? ≠ some "[//]"
  others : ∀ raw ∈ lines, ForUnqualified raw → ∀ word ∈ (PyText.split raw).tail,
    ¬ "#".toList <+: word.toList →
      ∃ other ∈ lines, ∃ us, readLine other = some (.plain us) ∧ word ∈ us

section Main

variable {server : Server} {info : DnsInfo} {db : ConfigTables} {lines : List String}
variable (hinfo : info.upstreamDns = lines.map some) (hinput : InSyntax lines)
variable (hnone : NoMatching server db)

include hinfo hinput hnone

/-- What the lines made say of a domain. -/
theorem domain_made_iff {d v : String} :
    (.domain d, v) ∈
        denotation (desiredUpstreamsForServer (insertSettings .server server info db) server) ↔
      ∃ raw ∈ lines, ∃ ds us, readLine raw = some (.domains ds us) ∧ d ∈ ds ∧ d ≠ "" ∧
        ∃ u ∈ us, v ∈ PyText.words u := by
  rw [denotes_iff hinfo hinput hnone]
  constructor
  · rintro (⟨raw, hraw, word, hplain, read, hword, hpair⟩ | hforward)
    · obtain ⟨line, hread⟩ := reads_of_inSyntax hinput hraw
      rcases reads_of_plainOf hread hplain hword with rfl | ⟨rfl, -⟩ | ⟨glued, -, rfl, -⟩
      · cases hpair
      · simp [Line.pairs] at hpair
      · simp [Line.pairs, selector] at hpair
    · obtain ⟨raw, hraw, ds, u, hforward, d', hd, v', hv, heq⟩ := hforward
      obtain ⟨hselector, rfl⟩ := Prod.mk.inj heq
      obtain rfl := Selector.domain.inj hselector
      obtain ⟨line, hread⟩ := reads_of_inSyntax hinput hraw
      obtain ⟨ds', us, hline, hd', hne, hu⟩ := (forward_iff hread).mp ⟨ds, hforward, hd⟩
      exact ⟨raw, hraw, ds', us, hline, hd', hne, u, hu, hv⟩
  · rintro ⟨raw, hraw, ds, us, hline, hd, hne, u, hu, hv⟩
    obtain ⟨ds', hforward, hd'⟩ := (forward_iff hline).mpr ⟨ds, us, hline, hd, hne, hu⟩
    exact .inr ⟨raw, hraw, ds', u, hforward, d, hd', v, hv, rfl⟩

/-- What the imported upstreams say of unqualified names. -/
theorem unqualified_made_iff {v : String} :
    (.unqualified, v) ∈
        denotation (desiredUpstreamsForServer (insertSettings .server server info db) server) ↔
      v ≠ "" ∧ ∃ raw ∈ lines, ForUnqualified raw ∧
        (PyText.split raw).head? = some ("[//]" ++ v) := by
  rw [denotes_iff hinfo hinput hnone]
  constructor
  · rintro (⟨raw, hraw, word, hplain, read, hword, hpair⟩ | ⟨_, _, _, _, _, _, _, _, _, heq⟩)
    · obtain ⟨line, hread⟩ := reads_of_inSyntax hinput hraw
      rcases reads_of_plainOf hread hplain hword with rfl | ⟨rfl, -⟩ | ⟨glued, hne, rfl, hmark, hhead⟩
      · cases hpair
      · simp [Line.pairs] at hpair
      · obtain rfl : v = glued := by simpa [Line.pairs, selector] using hpair
        exact ⟨hne, raw, hraw, hmark, hhead⟩
    · cases heq
  · rintro ⟨hne, raw, hraw, hmark, hhead⟩
    obtain ⟨line, hread⟩ := reads_of_inSyntax hinput hraw
    obtain ⟨glued, rest, hsplit, hglued, -⟩ := word_cases hread hmark
    have hmem : "[//]" ++ v ∈ PyText.split raw := List.mem_of_head? hhead
    rw [hsplit, List.head?_cons] at hhead
    have hsame : glued = v := by
      have htext := congrArg String.toList (Option.some.inj hhead)
      rw [String.toList_append, String.toList_append] at htext
      exact String.toList_injective (List.append_cancel_left htext)
    subst hsame
    rw [if_neg hne] at hglued
    exact .inl ⟨raw, hraw, _, plainOf_of_unqualified hread hmark hmem, _, hglued,
      by simp [Line.pairs, selector]⟩

/-- What the imported upstreams say of everything else. -/
theorem everything_made_iff {v : String} :
    (.everything, v) ∈
        denotation (desiredUpstreamsForServer (insertSettings .server server info db) server) ↔
      (.everything, v) ∈ denotation lines ∨ ∃ raw ∈ lines, ForUnqualified raw ∧
        v ∈ (PyText.split raw).tail ∧ marked v = false := by
  rw [denotes_iff hinfo hinput hnone, mem_everything]
  constructor
  · rintro (⟨raw, hraw, word, hplain, read, hword, hpair⟩ | ⟨_, _, _, _, _, _, _, _, _, heq⟩)
    · obtain ⟨line, hread⟩ := reads_of_inSyntax hinput hraw
      rcases reads_of_plainOf hread hplain hword with rfl | ⟨rfl, hfrom⟩ | ⟨glued, -, rfl, -⟩
      · cases hpair
      · obtain rfl : v = word := by simpa [Line.pairs] using hpair
        rcases hfrom with ⟨us, hline, hv⟩ | ⟨hmark, htail, hnot⟩
        · exact .inl ⟨raw, hraw, us, hline, hv⟩
        · refine .inr ⟨raw, hraw, hmark, htail, ?_⟩
          obtain ⟨glued, rest, hsplit, -, hrest, -⟩ := word_cases hread hmark
          rw [hsplit, List.tail_cons] at htail
          obtain ⟨hisWord, hopen⟩ := hrest v htail
          rcases other_word_cases hisWord hopen with ⟨hcomment, -⟩ | ⟨-, -, hno⟩ | ⟨hunmarked, -⟩
          · exact absurd hcomment hnot
          · rw [hno] at hword
            cases hword
          · exact hunmarked
      · simp [Line.pairs, selector] at hpair
    · cases heq
  · rintro (⟨raw, hraw, us, hline, hv⟩ | ⟨raw, hraw, hmark, htail, hunmarked⟩)
    · obtain ⟨hplain, hunmarked⟩ := plainOf_of_plain hline hv
      exact .inl ⟨raw, hraw, v, hplain, _, readLine_word (isWord_of_mem hplain.2.2) hunmarked,
        by simp [Line.pairs]⟩
    · obtain ⟨line, hread⟩ := reads_of_inSyntax hinput hraw
      have hmem : v ∈ PyText.split raw := List.mem_of_mem_tail htail
      exact .inl ⟨raw, hraw, v, plainOf_of_unqualified hread hmark hmem, _,
        readLine_word (isWord_of_mem hmem) hunmarked, by simp [Line.pairs]⟩

/-- Faithful lines are made into lines of the syntax. -/
theorem accepted_of_faithful (h : Faithful lines) :
    InSyntax (desiredUpstreamsForServer (insertSettings .server server info db) server) := by
  rw [accepted_iff hinfo hinput hnone]
  intro raw hraw word hplain
  obtain ⟨line, hread⟩ := reads_of_inSyntax hinput hraw
  rcases plain_cases hread hplain with ⟨-, hmem, hunmarked⟩ | ⟨hmark, hmem⟩
  · rw [readLine_word (isWord_of_mem hmem) hunmarked]
    rfl
  · obtain ⟨glued, rest, hsplit, hglued, hrest, -⟩ := word_cases hread hmark
    have hfirst := h.glued raw hraw hmark
    have hothers := h.others raw hraw hmark
    rw [hsplit] at hmem hfirst hothers
    rcases List.mem_cons.mp hmem with rfl | hother
    · have hne : glued ≠ "" := by
        rintro rfl
        exact hfirst rfl
      rw [hglued, if_neg hne]
      rfl
    · obtain ⟨hisWord, hopen⟩ := hrest word hother
      by_cases hcomment : "#".toList <+: word.toList
      · rw [readLine_comment hisWord hcomment]
        rfl
      · obtain ⟨other, -, us, hline, hu⟩ := hothers word hother hcomment
        rw [readLine_word hisWord (plainOf_of_plain hline hu).2]
        rfl

/-- What is imported of faithful lines has the same meaning. -/
theorem sameMeaning_of_faithful (h : Faithful lines) :
    SameMeaning (desiredUpstreamsForServer (insertSettings .server server info db) server)
      lines := by
  refine ⟨accepted_of_faithful hinfo hinput hnone h, ?_⟩
  rintro ⟨sel, v⟩
  cases sel with
  | domain d =>
      rw [domain_made_iff hinfo hinput hnone, mem_domain]
      have hwords : ∀ raw ∈ lines, ∀ ds us, readLine raw = some (.domains ds us) → d ∈ ds →
          d ≠ "" → ∀ u ∈ us, PyText.words u = [u] := by
        intro raw hraw ds us hline hd hne u hu
        obtain ⟨hfree, hnil⟩ := words_of_domains hline u hu
        exact words_word ⟨hfree, hnil⟩ (h.commas raw hraw ds us hline ⟨d, hd, hne⟩ u hu)
      constructor
      · rintro ⟨raw, hraw, ds, us, hline, hd, hne, u, hu, hv⟩
        rw [hwords raw hraw ds us hline hd hne u hu, List.mem_singleton] at hv
        subst hv
        exact ⟨raw, hraw, ds, us, hline, hd, hne, hu⟩
      · rintro ⟨raw, hraw, ds, us, hline, hd, hne, hu⟩
        refine ⟨raw, hraw, ds, us, hline, hd, hne, v, hu, ?_⟩
        rw [hwords raw hraw ds us hline hd hne v hu]
        exact List.mem_singleton_self v
  | unqualified =>
      rw [unqualified_made_iff hinfo hinput hnone, mem_unqualified]
      constructor
      · rintro ⟨hne, raw, hraw, hmark, hhead⟩
        obtain ⟨line, hread⟩ := reads_of_inSyntax hinput hraw
        obtain ⟨glued, rest, hsplit, -, -, us, hline, hus⟩ := word_cases hread hmark
        rw [hsplit, List.head?_cons] at hhead
        have htext := congrArg String.toList (Option.some.inj hhead)
        rw [String.toList_append, String.toList_append] at htext
        obtain rfl := String.toList_injective (List.append_cancel_left htext)
        exact ⟨raw, hraw, [""], us, hline, List.mem_singleton_self _,
          (hus glued).mpr (.inl ⟨rfl, hne⟩)⟩
      · rintro ⟨raw, hraw, ds, us, hline, hempty, hu⟩
        have hne : v ≠ "" := by
          rintro rfl
          exact (words_of_domains hline _ hu).2 rfl
        exact ⟨hne, h.unqualified raw hraw ds us hline hempty v hu⟩
  | everything =>
      rw [everything_made_iff hinfo hinput hnone, mem_everything]
      constructor
      · rintro (hbefore | ⟨raw, hraw, hmark, htail, hunmarked⟩)
        · exact hbefore
        · exact h.others raw hraw hmark v htail (marked_eq_false.mp hunmarked).1
      · exact .inl

/-- Lines whose meaning was kept are faithful. -/
theorem faithful_of_sameMeaning
    (h : SameMeaning (desiredUpstreamsForServer (insertSettings .server server info db) server)
      lines) : Faithful lines := by
  have haccepted := (accepted_iff hinfo hinput hnone).mp h.accepted
  constructor
  · intro raw hraw ds us hline hdomain u hu hcomma
    obtain ⟨d, hd, hne⟩ := hdomain
    have hmade := (h.pairs (.domain d, u)).mpr
      (mem_domain.mpr ⟨raw, hraw, ds, us, hline, hd, hne, hu⟩)
    obtain ⟨_, _, _, _, _, _, _, w, _, hword⟩ := (domain_made_iff hinfo hinput hnone).mp hmade
    have hgap := (PyText.mem_words.mp hword).2.1 ',' hcomma
    exact absurd hgap (by decide)
  · intro raw hraw ds us hline hempty u hu
    have hmade := (h.pairs (.unqualified, u)).mpr
      (mem_unqualified.mpr ⟨raw, hraw, ds, us, hline, hempty, hu⟩)
    exact ((unqualified_made_iff hinfo hinput hnone).mp hmade).2
  · intro raw hraw hmark hhead
    obtain ⟨line, hread⟩ := reads_of_inSyntax hinput hraw
    have hplain := plainOf_of_unqualified hread hmark (List.mem_of_head? hhead)
    have hsome := haccepted raw hraw _ hplain
    exact absurd hsome (by decide)
  · intro raw hraw hmark word htail hcomment
    obtain ⟨line, hread⟩ := reads_of_inSyntax hinput hraw
    have hmem : word ∈ PyText.split raw := List.mem_of_mem_tail htail
    have hsome := haccepted raw hraw word (plainOf_of_unqualified hread hmark hmem)
    obtain ⟨glued, rest, hsplit, -, hrest, -⟩ := word_cases hread hmark
    have hother := htail
    rw [hsplit, List.tail_cons] at hother
    obtain ⟨hisWord, hopen⟩ := hrest word hother
    rcases other_word_cases hisWord hopen with ⟨hstart, -⟩ | ⟨-, -, hno⟩ | ⟨hunmarked, -⟩
    · exact absurd hstart hcomment
    · rw [hno] at hsome
      cases hsome
    · exact mem_everything.mp ((h.pairs (.everything, word)).mp
        ((everything_made_iff hinfo hinput hnone).mpr
          (.inr ⟨raw, hraw, hmark, htail, hunmarked⟩)))

/-- **When an import keeps the meaning.**  The lines of a server that no row is for mean the
same after they have been imported in its own scope, and a second import inserts nothing,
exactly where the lines are faithful: the marks of unqualified names are not taken apart. -/
theorem meaning_iff :
    (∃ after, importSettings .server server (.ok info) db = .ok after ∧
      SameMeaning (desiredUpstreamsForServer after server) lines ∧
      importSettings .server server (.ok info) after = .ok after) ↔ Faithful lines := by
  have himport : importSettings .server server (.ok info) db =
      .ok (insertSettings .server server info db) := by
    rw [importSettings, if_neg (by simp)]
  constructor
  · rintro ⟨after, hafter, hmeaning, -⟩
    rw [himport] at hafter
    obtain rfl := Except.ok.inj hafter
    exact faithful_of_sameMeaning hinfo hinput hnone hmeaning
  · intro hfaithful
    exact ⟨_, himport, sameMeaning_of_faithful hinfo hinput hnone hfaithful, insertSettings_again⟩

end Main

/-! ### A line for everything, two for domains -/

/-- A server without a zone, and no rows. -/
def plainServer : Server where
  id := 1
  name := "dns-a"
  url := "http://10.0.0.11:3000"
  username := none
  passwordEnc := none
  zoneId := none
  enabled := true
  agentId := none
  dnsPort := 53
  exposeWebUi := false
  installMethod := none
  tlsCert := none
  prune := true
  manageUpstreams := true
  manageFiltering := false

def noRows : ConfigTables := ⟨[], [], [], [], []⟩

def hasUpstreams (lines : List String) : DnsInfo := ⟨lines.map some, [], [], []⟩

def mixedLines : List String :=
  ["# local", "1.1.1.1", "[//]10.0.0.53", "[/corp.lan/lab.lan/]10.0.0.1  #"]

/-- How the mixed lines are read. -/
theorem readLine_mixed : mixedLines.map readLine = [some .comment, some (.plain ["1.1.1.1"]),
    some (.domains [""] ["10.0.0.53"]), some (.domains ["corp.lan", "lab.lan"] ["10.0.0.1", "#"])] := by
  decide +kernel

/-- The mixed lines are faithful. -/
theorem faithful_mixed : Faithful mixedLines := by
  have hread : ∀ raw ∈ mixedLines, ∀ ds us, readLine raw = some (.domains ds us) →
      ds = [""] ∧ us = ["10.0.0.53"] ∨ ds = ["corp.lan", "lab.lan"] ∧ us = ["10.0.0.1", "#"] := by
    intro raw hraw ds us h
    have hmem : some (Line.domains ds us) ∈ mixedLines.map readLine :=
      h ▸ List.mem_map_of_mem hraw
    simpa [readLine_mixed] using hmem
  have hunqualified : ∀ raw ∈ mixedLines, ForUnqualified raw → raw = "[//]10.0.0.53" := by
    decide +kernel
  constructor
  · intro raw hraw ds us h _
    rcases hread raw hraw ds us h with ⟨-, rfl⟩ | ⟨-, rfl⟩ <;> decide
  · intro raw hraw ds us h hempty u hu
    rcases hread raw hraw ds us h with ⟨rfl, rfl⟩ | ⟨rfl, rfl⟩
    · obtain rfl := List.mem_singleton.mp hu
      exact ⟨"[//]10.0.0.53", by decide, by decide +kernel, by decide +kernel⟩
    · exact absurd hempty (by decide)
  · intro raw hraw h
    rw [hunqualified raw hraw h]
    decide +kernel
  · intro raw hraw h word hword
    have htail : (PyText.split "[//]10.0.0.53").tail = [] := by decide +kernel
    rw [hunqualified raw hraw h, htail] at hword
    cases hword

/-- The mixed lines keep their meaning. -/
theorem mixed_lines_keep_meaning :
    ∃ after, importSettings .server plainServer (.ok (hasUpstreams mixedLines)) noRows =
        .ok after ∧ SameMeaning (desiredUpstreamsForServer after plainServer) mixedLines ∧
      importSettings .server plainServer (.ok (hasUpstreams mixedLines)) after = .ok after :=
  (meaning_iff rfl (by decide +kernel) ⟨by simp [noRows], by simp [noRows]⟩).mpr faithful_mixed

/-! ### Two upstreams for unqualified names -/

def twoResolvers : List String := ["[//]10.0.0.53 10.0.0.54"]

/-- The second one is for everything afterwards, and no longer for unqualified names. -/
theorem second_resolver_for_everything :
    InSyntax twoResolvers ∧ NoMatching plainServer noRows ∧
      ¬ ∃ after, importSettings .server plainServer (.ok (hasUpstreams twoResolvers)) noRows =
          .ok after ∧ SameMeaning (desiredUpstreamsForServer after plainServer) twoResolvers ∧
        importSettings .server plainServer (.ok (hasUpstreams twoResolvers)) after = .ok after := by
  refine ⟨by decide +kernel, ⟨by simp [noRows], by simp [noRows]⟩, ?_⟩
  rintro ⟨after, hafter, hmeaning, -⟩
  have hdesired : desiredUpstreamsForServer after plainServer =
      ["[//]10.0.0.53", "10.0.0.54"] := by
    obtain rfl := Except.ok.inj hafter
    decide +kernel
  have hbefore : (.unqualified, "10.0.0.54") ∈ denotation twoResolvers := by decide +kernel
  rw [← hmeaning.pairs, hdesired] at hbefore
  revert hbefore
  decide +kernel

end AdguardAdmin.UpstreamImports
