import AdguardAdmin.MetricsPage
/-!
# What the exposition writes

Whatever is called, the page that is written can be read back: the samples with the labels that
the calls gave, and each metric described once.  `valid_iff` leaves two things to the caller, that
values are on one line and that no two samples have one name and one set of labels.
-/

namespace AdguardAdmin.MetricsPage

open ExpositionText
open HourlyRollup (Kind Resolution)

variable {ν : Type} (py : Interpreter ν)

/-! ## What the calls write -/

def writtenLabels (labels : List (String × Json ν)) : List (String × String) :=
  labels.filterMap fun label => (py.text? label.2).map (label.1, ·)

/-- The sample of a call, under the labels as they are given. -/
def Call.written? : Call ν → Option Sample
  | .metric _ _ _ => none
  | .sample name labels value =>
      (py.valueText? value).map fun v => ⟨name, writtenLabels py labels, v⟩

/-- The lines of calls, when some metrics are described already. -/
def linesOf : List String → List (Call ν) → List Line
  | _, [] => []
  | seen, .metric name help kind :: rest =>
      if name ∈ seen then linesOf seen rest
      else .help name help :: .type name kind :: linesOf (name :: seen) rest
  | seen, .sample name labels value :: rest =>
      match (Call.sample name labels value).written? py with
      | none => linesOf seen rest
      | some s => .sample s :: linesOf seen rest

/-- A text says what the calls mean. -/
structure Valid (calls : List (Call ν)) (page : List Line) : Prop where
  originals : samples page = calls.filterMap (Call.written? py)
  distinct : Distinct (samples page)
  described : Described page

/-! ### The text -/

/-- The two ways to escape a text are one. -/
theorem toList_esc (s : String) : (esc s).toList = escape s.toList := by
  rw [esc, String.toList_ofList, replace, replace, replace, escape, List.flatMap_assoc,
    List.flatMap_assoc]
  congr 1
  funext c
  unfold escapeChar
  by_cases hslash : c = '\\'
  · subst hslash
    rfl
  · by_cases hquote : c = '"'
    · subst hquote
      rfl
    · by_cases hline : c = '\n'
      · subst hline
        rfl
      · simp [hslash, hquote, hline]

/-- A sample is written as the format has it. -/
theorem toList_sampleLine (name v : String) (labels : List (String × Json ν)) :
    (name ++ "\x7b" ++ ",".intercalate (labels.filterMap fun label =>
        (py.text? label.2).map fun text => label.1 ++ "=\"" ++ esc text ++ "\"") ++
      "\x7d " ++ v).toList =
    sampleText ⟨name, writtenLabels py labels, v⟩ := by
  have hlabels : (labels.filterMap fun label =>
        (py.text? label.2).map fun text => label.1 ++ "=\"" ++ esc text ++ "\"").map String.toList =
      (writtenLabels py labels).map labelText := by
    rw [writtenLabels, List.map_filterMap, List.map_filterMap]
    congr 1
    funext label
    cases py.text? label.2 with
    | none => rfl
    | some text => simp [labelText, toList_esc]
  simp [sampleText, String.toList_intercalate, hlabels]

/-- The lines that are written are those that the calls make. -/
theorem run_lines (calls : List (Call ν)) (x : Exposition) :
    (calls.foldl (Call.run py) x).lines.map String.toList =
      x.lines.map String.toList ++ (linesOf py x.seen calls).map lineText := by
  induction calls generalizing x with
  | nil => simp [linesOf]
  | cons call calls ih =>
      rw [List.foldl_cons, ih]
      cases call with
      | metric name help kind =>
          rw [Call.run, Exposition.metric, linesOf]
          by_cases hseen : name ∈ x.seen
          · rw [if_pos hseen, if_pos hseen]
          · rw [if_neg hseen, if_neg hseen]
            simp [lineText, helpMark, typeMark]
      | sample name labels value =>
          rw [Call.run, Exposition.sample, linesOf, Call.written?]
          cases hvalue : py.valueText? value with
          | none => rfl
          | some v =>
              have hline := toList_sampleLine py name v labels
              simp only [Option.map_some, List.map_append, List.map_cons, List.map_nil, hline,
                List.append_assoc, List.singleton_append, lineText]

/-- The text is that of the lines. -/
theorem toList_render (calls : List (Call ν)) :
    (render py calls).toList = pageText (linesOf py [] calls) := by
  have hlines := run_lines py calls ⟨[], []⟩
  rw [List.map_nil, List.nil_append] at hlines
  rw [render, Exposition.text, String.toList_append, String.toList_intercalate, hlines]
  rfl

/-! ### Names -/

/-- A call with names that are names, and a help text on one line. -/
def Call.Named : Call ν → Prop
  | .metric name help kind => IsName name ∧ '\n' ∉ help.toList ∧ '\n' ∉ kind.toList
  | .sample name labels _ => IsName name ∧ ∀ label ∈ labels, IsName label.1

/-- Labels are written under their own names. -/
theorem isName_writtenLabels {labels : List (String × Json ν)}
    (h : ∀ label ∈ labels, IsName label.1) : ∀ label ∈ writtenLabels py labels, IsName label.1 := by
  intro label hlabel
  obtain ⟨given, hgiven, heq⟩ := List.mem_filterMap.mp hlabel
  obtain ⟨text, -, rfl⟩ := Option.map_eq_some_iff.mp heq
  exact h given hgiven

/-- The lines are such as can be read again, as far as the values are. -/
theorem ok_of_named {calls : List (Call ν)} (hnamed : ∀ call ∈ calls, call.Named)
    (hvalues : ∀ s ∈ calls.filterMap (Call.written? py), '\n' ∉ s.value.toList)
    (seen : List String) : ∀ line ∈ linesOf py seen calls, line.Ok := by
  induction calls generalizing seen with
  | nil => exact fun line hline => nomatch hline
  | cons call calls ih =>
      have hcall := hnamed call List.mem_cons_self
      have hrest : ∀ seen, ∀ line ∈ linesOf py seen calls, line.Ok := by
        intro seen
        refine ih (fun other hother => hnamed other (List.mem_cons_of_mem _ hother)) ?_ seen
        intro s hs
        apply hvalues s
        obtain ⟨other, hother, hwritten⟩ := List.mem_filterMap.mp hs
        exact List.mem_filterMap.mpr ⟨other, List.mem_cons_of_mem _ hother, hwritten⟩
      cases call with
      | metric name help kind =>
          rw [linesOf]
          by_cases hseen : name ∈ seen
          · rw [if_pos hseen]
            exact hrest seen
          · rw [if_neg hseen, List.forall_mem_cons, List.forall_mem_cons]
            exact ⟨⟨hcall.1, hcall.2.1⟩, ⟨hcall.1, hcall.2.2⟩, hrest _⟩
      | sample name labels value =>
          rw [linesOf]
          cases hwritten : (Call.sample name labels value).written? py with
          | none => exact hrest seen
          | some s =>
              have hvalue : '\n' ∉ s.value.toList :=
                hvalues s (List.mem_filterMap.mpr ⟨_, List.mem_cons_self, hwritten⟩)
              obtain ⟨v, -, rfl⟩ := Option.map_eq_some_iff.mp hwritten
              refine List.forall_mem_cons.mpr ⟨⟨⟨hcall.1, ?_⟩, hvalue⟩, hrest seen⟩
              exact isName_writtenLabels py hcall.2

/-- The samples among the lines are those of the calls. -/
theorem samples_linesOf (calls : List (Call ν)) (seen : List String) :
    samples (linesOf py seen calls) = calls.filterMap (Call.written? py) := by
  induction calls generalizing seen with
  | nil => rfl
  | cons call calls ih =>
      cases call with
      | metric name help kind =>
          rw [linesOf, List.filterMap_cons_none (by rfl), ← ih]
          by_cases hseen : name ∈ seen
          · rw [if_pos hseen]
          · rw [if_neg hseen, ih, ← ih (name :: seen)]
            rfl
      | sample name labels value =>
          rw [linesOf]
          cases hwritten : (Call.sample name labels value).written? py with
          | none => rw [List.filterMap_cons_none hwritten, ← ih seen]
          | some s =>
              rw [List.filterMap_cons_some hwritten, ← ih seen]
              rfl

/-! ### Descriptions -/

/-- Every sample is of a metric that is described before it. -/
def Announced : List String → List (Call ν) → Prop
  | _, [] => True
  | seen, .metric name _ _ :: rest => Announced (name :: seen) rest
  | seen, .sample name _ _ :: rest => name ∈ seen ∧ Announced seen rest

/-- What follows a header still does when more headers came before. -/
theorem announced_mono {calls : List (Call ν)} {seen seen' : List String}
    (hsub : ∀ name ∈ seen, name ∈ seen') (h : Announced seen calls) : Announced seen' calls := by
  induction calls generalizing seen seen' with
  | nil => exact trivial
  | cons call calls ih =>
      cases call with
      | metric name help kind =>
          refine ih (fun other hother => ?_) h
          rcases List.mem_cons.mp hother with rfl | hother
          · exact List.mem_cons_self
          · exact List.mem_cons_of_mem _ (hsub other hother)
      | sample name labels value => exact ⟨hsub name h.1, ih hsub h.2⟩

/-- Headers announce what follows them. -/
theorem announced_describe {metrics : List (String × String)} {seen : List String}
    {rest : List (Call ν)}
    (h : Announced (metrics.map (metricName ·.1) ++ seen) rest) :
    Announced seen (describe metrics ++ rest) := by
  induction metrics generalizing seen with
  | nil => exact h
  | cons m metrics ih =>
      apply ih
      refine announced_mono (fun name hname => ?_) h
      simp only [List.map_cons, List.cons_append, List.mem_cons, List.mem_append] at hname ⊢
      tauto

/-- The names of samples. -/
def sampleNames (calls : List (Call ν)) : List String :=
  calls.filterMap fun
    | .sample name _ _ => some name
    | _ => none

/-- Samples of announced metrics announce nothing new. -/
theorem announced_samples {calls rest : List (Call ν)} {seen : List String}
    (hcalls : ∀ call ∈ calls, ∃ name labels value, call = .sample name labels value ∧ name ∈ seen)
    (h : Announced seen rest) : Announced seen (calls ++ rest) := by
  induction calls with
  | nil => exact h
  | cons call calls ih =>
      obtain ⟨⟨name, labels, value, rfl, hname⟩, hothers⟩ := List.forall_mem_cons.mp hcalls
      exact ⟨hname, ih hothers⟩

/-- A metric that is described already is not described again. -/
theorem names_linesOf (calls : List (Call ν)) (seen : List String) :
    (helps (linesOf py seen calls)).Nodup ∧
      (∀ name ∈ helps (linesOf py seen calls), name ∉ seen) ∧
        types (linesOf py seen calls) = helps (linesOf py seen calls) := by
  induction calls generalizing seen with
  | nil => exact ⟨List.nodup_nil, fun name hname => (nomatch hname), rfl⟩
  | cons call calls ih =>
      cases call with
      | metric name help kind =>
          rw [linesOf]
          by_cases hseen : name ∈ seen
          · rw [if_pos hseen]
            exact ih seen
          · rw [if_neg hseen]
            obtain ⟨hnodup, hnew, htypes⟩ := ih (name :: seen)
            refine ⟨List.nodup_cons.mpr ⟨?_, hnodup⟩, ?_, congrArg (name :: ·) htypes⟩
            · exact fun hname => hnew name hname List.mem_cons_self
            · intro other hother
              rcases List.mem_cons.mp hother with rfl | hother
              · exact hseen
              · exact fun hmem => hnew other hother (List.mem_cons_of_mem _ hmem)
      | sample name labels value =>
          rw [linesOf]
          cases (Call.sample name labels value).written? py with
          | none => exact ih seen
          | some s => exact ih seen

/-- A sample stands behind the header of its metric. -/
theorem described_before {calls : List (Call ν)} {seen : List String} (h : Announced seen calls)
    {front back : List Line} {s : Sample}
    (hlines : linesOf py seen calls = front ++ .sample s :: back) :
    s.name ∈ seen ∨ s.name ∈ helps front ∧ s.name ∈ types front := by
  induction calls generalizing seen front with
  | nil => cases front <;> cases hlines
  | cons call calls ih =>
      cases call with
      | metric name help kind =>
          rw [linesOf] at hlines
          by_cases hseen : name ∈ seen
          · rw [if_pos hseen] at hlines
            refine ih (announced_mono (fun other hother => ?_) h) hlines
            rcases List.mem_cons.mp hother with rfl | hother
            · exact hseen
            · exact hother
          · rw [if_neg hseen] at hlines
            -- the two lines are the first ones of the front
            obtain ⟨front, rfl⟩ : ∃ tail, front = .help name help :: .type name kind :: tail := by
              cases front with
              | nil => cases hlines
              | cons first front =>
                  obtain ⟨rfl, htail⟩ := List.cons.inj hlines
                  cases front with
                  | nil => cases htail
                  | cons second front =>
                      obtain ⟨rfl, -⟩ := List.cons.inj htail
                      exact ⟨front, rfl⟩
            have hrest := List.cons.inj (List.cons.inj hlines).2
            rcases ih h hrest.2 with hmem | ⟨hhelp, htype⟩
            · rcases List.mem_cons.mp hmem with hname | hmem
              · rw [hname]
                exact .inr ⟨List.mem_cons_self, List.mem_cons_self⟩
              · exact .inl hmem
            · exact .inr ⟨List.mem_cons_of_mem _ hhelp, List.mem_cons_of_mem _ htype⟩
      | sample name labels value =>
          obtain ⟨hname, h⟩ := h
          rw [linesOf] at hlines
          cases hwritten : (Call.sample name labels value).written? py with
          | none =>
              rw [hwritten] at hlines
              exact ih h hlines
          | some t =>
              rw [hwritten] at hlines
              cases front with
              | nil =>
                  obtain ⟨heq, -⟩ := List.cons.inj hlines
                  obtain rfl := Line.sample.inj heq
                  obtain ⟨v, -, rfl⟩ := Option.map_eq_some_iff.mp hwritten
                  exact .inl hname
              | cons first front =>
                  obtain ⟨hfirst, htail⟩ := List.cons.inj hlines
                  subst hfirst
                  have hrest : s.name ∈ seen ∨ s.name ∈ helps front ∧ s.name ∈ types front :=
                    ih h htail
                  exact hrest

/-- A page that announces its samples describes them. -/
theorem described_linesOf {calls : List (Call ν)} (h : Announced [] calls) :
    Described (linesOf py [] calls) where
  helps := (names_linesOf py calls []).1
  types := by
    rw [(names_linesOf py calls []).2.2]
    exact (names_linesOf py calls []).1
  before := by
    intro front s back hlines
    rcases described_before py h hlines with hmem | hdescribed
    · cases hmem
    · exact hdescribed

/-- **What a page of calls is worth**: it is valid if the values are on one line and no two samples
have one name and one set of labels. -/
theorem valid_iff {calls : List (Call ν)} (hnamed : ∀ call ∈ calls, call.Named)
    (hannounced : Announced [] calls) :
    (∃ page, readPage (render py calls).toList = some page ∧ Valid py calls page) ↔
      (∀ s ∈ calls.filterMap (Call.written? py), '\n' ∉ s.value.toList) ∧
        Distinct (calls.filterMap (Call.written? py)) := by
  constructor
  · rintro ⟨page, hread, hvalid⟩
    rw [← hvalid.originals]
    exact ⟨fun s hs => newline_not_mem_value hread hs, hvalid.distinct⟩
  · rintro ⟨hvalues, hdistinct⟩
    refine ⟨linesOf py [] calls, ?_, samples_linesOf py calls [], ?_, ?_⟩
    · rw [toList_render]
      exact readPage_pageText (ok_of_named py hnamed hvalues [])
    · rw [samples_linesOf]
      exact hdistinct
    · exact described_linesOf py hannounced

end AdguardAdmin.MetricsPage
