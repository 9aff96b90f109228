import AdguardAdmin.DrainFile
/-!
# Drains in the live balancer

A request changes the balancer before it changes the map, and a converge re-applies
a copy of the map.  What has to hold at every moment is that an entry held out of
the balancer belongs to a backend whose drain is recorded or on its way to be;
`Covered` says so, and `Guarded` is what a step has to find for it to stay true.

`drains_held` draws the consequence: once everything has finished, one more
converge makes the balancer agree with the map on every backend of its spec.
-/

namespace AdguardAdmin.Drains

open RunLaws

variable {Spec Cell : Type}

/-- The running balancer has this entry for the backend. -/
def Owns (b : Balancer Spec Cell) (loaded : Option Spec) (name : String) (cell : Cell) : Prop :=
  ∃ spec, loaded = some spec ∧ name ∈ b.names spec ∧ cell ∈ b.cells spec name

/-- A drain of the backend is under way and will be recorded. -/
def Pending (s : State Spec Cell) (name : String) : Prop :=
  ∃ i spec todo, s.requests i = .calling spec name true todo

def Recorded (s : State Spec Cell) (name : String) : Prop := name ∈ s.drained ∨ Pending s name

variable (b : Balancer Spec Cell)

/-- Every entry held out belongs to recorded backends only, unless some request has
failed. -/
def Covered (s : State Spec Cell) : Prop :=
  (∃ i, s.requests i = .failed) ∨
    ∀ cell, s.held cell = true → ∀ name, Owns b s.loaded name cell → Recorded s name

/-- No entry of the backend is held out. -/
def Free (s : State Spec Cell) (name : String) : Prop :=
  ∀ cell, Owns b s.loaded name cell → s.held cell = false

/-- An entry is only set down while every backend it belongs to is recorded or being
recorded; a name is only forgotten while the backend is free, or being drained by
another request; the agent restarts only while the file covers what is held out. -/
def Guarded (s : State Spec Cell) : Event Spec Cell → Prop
  | .call i true =>
      match s.requests i with
      | .calling _ _ true (cell :: _) => ∀ name, Owns b s.loaded name cell → Recorded s name
      | _ => True
  | .record i =>
      match s.requests i with
      | .calling _ name false [] => Free b s name ∨ Pending s name
      | _ => True
  | .reapply ok =>
      match s.pass with
      | .reapplying (.hold _ cell :: _) =>
          ok = true → ∀ name, Owns b s.loaded name cell → Recorded s name
      | .reapplying (.prune name :: _) => Free b s name ∨ Pending s name
      | _ => True
  | .restart =>
      ∀ cell, s.held cell = true → ∀ name, Owns b s.loaded name cell → name ∈ stored s.file
  | _ => True

/-- At the start every drained cell is covered. -/
theorem covered_start (file : Option (List String)) : Covered b (start file) := by
  refine .inr fun cell hheld => ?_
  cases hheld

namespace Covered

variable {b} {s t : State Spec Cell}

/-- A state stays covered when nothing new is held out, the configuration is the same, and what was
recorded still is, wherever it matters. -/
theorem weaken (h : Covered b s) (hfailed : ∀ i, s.requests i = .failed → t.requests i = .failed)
    (hloaded : t.loaded = s.loaded) (hheld : ∀ cell, t.held cell = true → s.held cell = true)
    (hrecorded : ∀ cell name, t.held cell = true → Owns b s.loaded name cell →
      Recorded s name → Recorded t name) : Covered b t := by
  rcases h with ⟨i, hi⟩ | h
  · exact .inl ⟨i, hfailed i hi⟩
  · refine .inr fun cell hcell name hname => ?_
    rw [hloaded] at hname
    exact hrecorded cell name hcell hname (h cell (hheld cell hcell) name hname)

theorem of_failed {i : Nat} (h : t.requests i = .failed) : Covered b t := .inl ⟨i, h⟩

end Covered

/-- Moving a request that is not a drain under way loses no pending drain. -/
theorem Pending.setRequest {s : State Spec Cell} {name : String} (h : Pending s name) {i : Nat}
    {r : Request Spec Cell}
    (hkeep : ∀ spec todo, s.requests i = .calling spec name true todo →
      ∃ spec' todo', r = .calling spec' name true todo') :
    Pending (s.setRequest i r) name := by
  obtain ⟨j, spec, todo, hj⟩ := h
  by_cases hij : j = i
  · subst hij
    obtain ⟨spec', todo', rfl⟩ := hkeep spec todo hj
    exact ⟨j, spec', todo', by simp [State.setRequest]⟩
  · exact ⟨j, spec, todo, by simpa [State.setRequest, hij] using hj⟩

/-- A name stays recorded when a request goes on. -/
theorem Recorded.setRequest {s : State Spec Cell} {name : String} (h : Recorded s name) {i : Nat}
    {r : Request Spec Cell}
    (hkeep : ∀ spec todo, s.requests i = .calling spec name true todo →
      ∃ spec' todo', r = .calling spec' name true todo') :
    Recorded (s.setRequest i r) name :=
  h.imp id fun hp => hp.setRequest hkeep

/-- Drained cells stay covered when a request goes on. -/
theorem Covered.setRequest {b : Balancer Spec Cell} {s : State Spec Cell} (h : Covered b s)
    {i : Nat} {r : Request Spec Cell} (hi : s.requests i ≠ .failed)
    (hkeep : ∀ spec name todo, s.requests i = .calling spec name true todo →
      ∃ spec' todo', r = .calling spec' name true todo') : Covered b (s.setRequest i r) := by
  refine h.weaken ?_ rfl (fun _ hc => hc) ?_
  · intro j hj
    have hij : j ≠ i := by
      rintro rfl
      exact hi hj
    simpa [State.setRequest, hij] using hj
  · intro cell name _ _ hr
    exact hr.setRequest (hkeep · name)

/-- Forgetting the name of a free backend, or of one being drained anew. -/
theorem Covered.forget {b : Balancer Spec Cell} {s t : State Spec Cell} {name : String}
    (h : Covered b s) (hfree : Free b s name ∨ Pending s name)
    (hrequests : ∀ m, Pending s m → Pending t m)
    (hfailed : ∀ i, s.requests i = .failed → t.requests i = .failed)
    (hloaded : t.loaded = s.loaded) (hheld : t.held = s.held)
    (hdrained : ∀ m, m ∈ s.drained → m ≠ name → m ∈ t.drained) : Covered b t := by
  refine h.weaken hfailed hloaded (fun cell hc => by rwa [hheld] at hc) ?_
  intro cell m hcell howns hrecorded
  rw [hheld] at hcell
  rcases hrecorded with hm | hp
  · by_cases heq : m = name
    · subst heq
      rcases hfree with hfree | hp
      · rw [hfree cell howns] at hcell
        cases hcell
      · exact .inr (hrequests m hp)
    · exact .inl (hdrained m hm heq)
  · exact .inr (hrequests m hp)

section Steps

variable [DecidableEq Cell]

/-- Holding an entry whose backends are all recorded leaves everything covered. -/
theorem Covered.hold {b : Balancer Spec Cell} {s : State Spec Cell} (h : Covered b s) {cell : Cell}
    (hrecorded : ∀ name, Owns b s.loaded name cell → Recorded s name) :
    Covered b (s.hold b cell) := by
  unfold State.hold
  split
  · rcases h with hfailed | h
    · exact .inl hfailed
    · refine .inr fun c hc name hname => ?_
      by_cases heq : c = cell
      · subst heq
        exact hrecorded name hname
      · exact h c (by simpa [heq] using hc) name hname
  · exact h

/-- Releasing a cell keeps the state covered. -/
theorem Covered.release {b : Balancer Spec Cell} {s : State Spec Cell} (h : Covered b s)
    (cell : Cell) : Covered b (s.release cell) := by
  refine h.weaken (fun _ hi => hi) rfl ?_ (fun _ _ _ _ hr => hr)
  intro c hc
  by_cases heq : c = cell
  · subst heq
    simp [State.release] at hc
  · simpa [State.release, heq] using hc

/-- One guarded step keeps what is held out covered. -/
theorem covered_step (s : State Spec Cell) (e : Event Spec Cell) (h : Covered b s)
    (hc : Guarded b s e) : Covered b (s.step b e) := by
  cases e with
  | request i spec name drain =>
      simp only [State.step]
      split
      · rename_i hi
        split <;> exact h.setRequest (by simp [hi]) (by simp [hi])
      · exact h
  | call i ok =>
      simp only [State.step]
      split
      · rename_i spec name drain cell todo hi
        cases ok with
        | true =>
            cases drain with
            | true =>
                simp only [Guarded, hi] at hc
                refine (h.hold hc).setRequest ?_ ?_
                · unfold State.hold
                  split <;> simp [hi]
                · intro spec' name' todo' hreq
                  have hsame : (s.hold b cell).requests i = s.requests i := by
                    unfold State.hold
                    split <;> rfl
                  rw [hsame, hi] at hreq
                  obtain ⟨rfl, rfl, -, rfl⟩ := Request.calling.inj hreq
                  exact ⟨spec, todo, rfl⟩
            | false =>
                exact (h.release cell).setRequest (by simp [State.release, hi])
                  (by simp [State.release, hi])
        | false => exact .of_failed (i := i) (by simp [State.setRequest])
      · exact h
  | record i =>
      simp only [State.step]
      split
      · rename_i spec name drain hi
        cases drain with
        | true =>
            -- the pending drain becomes a recorded one
            refine h.weaken ?_ rfl (fun _ hcell => hcell) ?_
            · intro j hj
              have hij : j ≠ i := by
                rintro rfl
                rw [hi] at hj
                cases hj
              simpa [State.setRequest, hij] using hj
            · rintro cell m - - (hm | ⟨j, spec', todo, hj⟩)
              · exact .inl (by simp [State.drainedAfter, hm])
              · by_cases hij : j = i
                · subst hij
                  rw [hi] at hj
                  obtain ⟨-, rfl, -, -⟩ := Request.calling.inj hj
                  exact .inl (by simp [State.drainedAfter])
                · exact .inr ⟨j, spec', todo, by simpa [State.setRequest, hij] using hj⟩
        | false =>
            simp only [Guarded, hi] at hc
            refine h.forget hc ?_ ?_ rfl rfl ?_
            · rintro m ⟨j, spec', todo, hj⟩
              have hij : j ≠ i := by
                rintro rfl
                rw [hi] at hj
                cases hj
              exact ⟨j, spec', todo, by simpa [State.setRequest, hij] using hj⟩
            · intro j hj
              have hij : j ≠ i := by
                rintro rfl
                rw [hi] at hj
                cases hj
              simpa [State.setRequest, hij] using hj
            · intro m hm hne
              simp [State.drainedAfter, hm, hne]
      · exact h
  | write i ok =>
      simp only [State.step]
      split
      · rename_i names version hi
        split
        · exact (h.setRequest (r := .returned) (i := i) (by simp [hi]) (by simp [hi])).weaken
            (fun _ hj => hj) rfl (fun _ hcell => hcell) (fun _ _ _ _ hr => hr)
        · exact .of_failed (i := i) (by simp [State.setRequest])
      · exact h
  | reapply ok =>
      simp only [State.step]
      split
      · exact h
      · rename_i name cell todo hpass
        simp only [Guarded, hpass] at hc
        split
        · rename_i hok
          exact h.hold (hc hok)
        · exact h
      · rename_i name todo hpass
        simp only [Guarded, hpass] at hc
        refine h.forget hc (fun _ hp => hp) (fun _ hj => hj) rfl rfl ?_
        intro m hm hne
        simp [State.prune, hm, hne]
      · exact h
  | snapshot =>
      simp only [State.step]
      split
      · split <;> exact h
      · exact h
  | converge spec =>
      simp only [State.step]
      split <;> exact h
  | abort =>
      simp only [State.step]
      split <;> exact h
  | reload loaded => exact .inr fun cell hcell => by cases hcell
  | rewrite cell => exact h.release cell
  | restart =>
      exact .inr fun cell hcell name howns => .inl (hc cell hcell name howns)

end Steps

/-! ## One more converge -/

/-- A successful converge on its own: it may restart the balancer, copies the map
and has its `k` calls answered. -/
def furtherPass (spec : Spec) (restarts : Bool) (k : Nat) : List (Event Spec Cell) :=
  .converge spec :: ((if restarts then [.reload (some spec)] else []) ++
    .snapshot :: List.replicate k (.reapply true))

/-- The running balancer is configured with the backends of the spec. -/
def Configured (loaded : Option Spec) (spec : Spec) : Prop :=
  ∀ name cell, Owns b loaded name cell ↔ name ∈ b.names spec ∧ cell ∈ b.cells spec name

/-- No two backends of the spec share an entry. -/
def Apart (spec : Spec) : Prop :=
  ∀ cell, ∀ name ∈ b.names spec, ∀ other ∈ b.names spec,
    cell ∈ b.cells spec name → cell ∈ b.cells spec other → name = other

/-- The backends of the spec that are held out, on every entry, are the recorded
ones; the others are held out on none. -/
def Agree (s : State Spec Cell) (spec : Spec) : Prop :=
  ∀ name ∈ b.names spec,
    (name ∈ s.drained → ∀ cell ∈ b.cells spec name, s.held cell = true) ∧
    (name ∉ s.drained → ∀ cell ∈ b.cells spec name, s.held cell = false)

/-- A cell is held by the tasks that name it. -/
theorem hold_mem_tasks {spec : Spec} {names : List String} {name : String} {cell : Cell} :
    .hold name cell ∈ b.tasks spec names ↔
      name ∈ names ∧ name ∈ b.names spec ∧ cell ∈ b.cells spec name := by
  simp only [Balancer.tasks, List.mem_flatMap]
  constructor
  · rintro ⟨m, hm, hin⟩
    split at hin
    · rename_i hspec
      obtain ⟨c, hcell, heq⟩ := List.mem_map.mp hin
      obtain ⟨rfl, rfl⟩ := Task.hold.inj heq
      exact ⟨hm, hspec, hcell⟩
    · simp at hin
  · rintro ⟨hname, hspec, hcell⟩
    exact ⟨name, hname, by simp [hspec, hcell]⟩

/-- A name is pruned when the spec has it no more. -/
theorem prune_mem_tasks {spec : Spec} {names : List String} {name : String} :
    .prune name ∈ b.tasks spec names ↔ name ∈ names ∧ name ∉ b.names spec := by
  simp only [Balancer.tasks, List.mem_flatMap]
  constructor
  · rintro ⟨m, hm, hin⟩
    split at hin
    · simp at hin
    · rename_i hspec
      obtain rfl : name = m := by simpa using hin
      exact ⟨hm, hspec⟩
  · rintro ⟨hname, hspec⟩
    exact ⟨name, hname, by simp [hspec]⟩

/-- What a `reapplyDrains` whose calls all succeed has done when it ends. -/
structure Reapplied (s t : State Spec Cell) (tasks : List (Task Cell)) : Prop where
  loaded : t.loaded = s.loaded
  held : ∀ cell, t.held cell = true ↔
    s.held cell = true ∨ ((∃ name, Owns b s.loaded name cell) ∧ ∃ name, .hold name cell ∈ tasks)
  drained : ∀ name, name ∈ t.drained ↔ name ∈ s.drained ∧ .prune name ∉ tasks

/-- With every request returned, what is held out belongs to names on the map. -/
theorem Covered.held_drained {s : State Spec Cell} (h : Covered b s) (hreturned : AllReturned s)
    {cell : Cell} (hheld : s.held cell = true) {name : String}
    (howns : Owns b s.loaded name cell) : name ∈ s.drained := by
  rcases h with ⟨i, hi⟩ | h
  · rcases hreturned.1 i with hr | hr <;> rw [hr] at hi <;> cases hi
  · rcases h cell hheld name howns with hm | ⟨i, spec, todo, hi⟩
    · exact hm
    · rcases hreturned.1 i with hr | hr <;> rw [hr] at hi <;> cases hi

/-- From a state in which nothing else is held out, re-applying makes balancer and map
agree. -/
theorem agree_of_reapplied {s t : State Spec Cell} {spec : Spec} (hapart : Apart b spec)
    (hconfigured : Configured b s.loaded spec)
    (hheld : ∀ cell, s.held cell = true → ∀ name, Owns b s.loaded name cell → name ∈ s.drained)
    (h : Reapplied b s t (b.tasks spec (sortedNames s.drained))) : Agree b t spec := by
  intro name hname
  have hmember : name ∈ t.drained ↔ name ∈ s.drained := by
    rw [h.drained]
    simp [prune_mem_tasks, hname]
  refine ⟨fun hdrained cell hcell => ?_, fun hdrained cell hcell => ?_⟩
  · rw [h.held]
    have howns : Owns b s.loaded name cell := (hconfigured name cell).mpr ⟨hname, hcell⟩
    have htask : .hold name cell ∈ b.tasks spec (sortedNames s.drained) :=
      (hold_mem_tasks b).mpr ⟨mem_sortedNames.mpr (hmember.mp hdrained), hname, hcell⟩
    exact .inr ⟨⟨name, howns⟩, name, htask⟩
  · rw [hmember] at hdrained
    rw [Bool.eq_false_iff]
    intro hcontra
    rcases (h.held cell).mp hcontra with hbefore | ⟨-, other, htask⟩
    · exact hdrained (hheld cell hbefore name ((hconfigured name cell).mpr ⟨hname, hcell⟩))
    · obtain ⟨hother, hspec, hcell'⟩ := (hold_mem_tasks b).mp htask
      obtain rfl : name = other := hapart cell name hname other hspec hcell hcell'
      exact hdrained (mem_sortedNames.mp hother)

section Loop

variable [DecidableEq Cell]

/-- A cell is present when a name owns it. -/
theorem present_iff {loaded : Option Spec} {cell : Cell} :
    b.present loaded cell = true ↔ ∃ name, Owns b loaded name cell := by
  cases loaded with
  | none => simp [Balancer.present, Owns]
  | some spec => simp [Balancer.present, Owns]

/-- Without a pass nothing is applied again. -/
theorem reapply_idle {s : State Spec Cell} (h : s.pass = .none) (k : Nat) :
    after (State.step b) s (List.replicate k (.reapply true)) = s := by
  induction k with
  | zero => rfl
  | succ k ih =>
      have hstep : s.step b (.reapply true) = s := by simp [State.step, h]
      rw [List.replicate_succ, after_cons, hstep, ih]

/-- A hold adds the cell, where a name owns it. -/
theorem hold_held (s : State Spec Cell) (cell c : Cell) :
    (s.hold b cell).held c = true ↔
      s.held c = true ∨ ((∃ name, Owns b s.loaded name c) ∧ c = cell) := by
  rw [← present_iff]
  unfold State.hold
  by_cases heq : c = cell
  · subst heq
    split <;> simp [*]
  · split <;> simp [heq]

@[simp] theorem hold_loaded (s : State Spec Cell) (cell : Cell) :
    (s.hold b cell).loaded = s.loaded := by
  unfold State.hold
  split <;> rfl

@[simp] theorem hold_drained (s : State Spec Cell) (cell : Cell) :
    (s.hold b cell).drained = s.drained := by
  unfold State.hold
  split <;> rfl

/-- The loop over the snapshot, by induction on what is left of it. -/
theorem reapplied_of_done (tasks : List (Task Cell)) (s : State Spec Cell)
    (hpass : s.pass = .reapplying tasks) (k : Nat)
    (hdone : (after (State.step b) s (List.replicate k (.reapply true))).pass = .none) :
    Reapplied b s (after (State.step b) s (List.replicate k (.reapply true))) tasks := by
  induction tasks generalizing s k with
  | nil =>
      cases k with
      | zero =>
          rw [List.replicate_zero, after_nil, hpass] at hdone
          cases hdone
      | succ k =>
          have hstep : s.step b (.reapply true) = { s with pass := .none } := by
            simp [State.step, hpass]
          rw [List.replicate_succ, after_cons, hstep, reapply_idle b rfl]
          exact ⟨rfl, by simp, by simp⟩
  | cons task rest ih =>
      cases k with
      | zero =>
          rw [List.replicate_zero, after_nil, hpass] at hdone
          cases hdone
      | succ k =>
          rw [List.replicate_succ, after_cons] at hdone ⊢
          cases task with
          | hold name cell =>
              have hstep : s.step b (.reapply true) =
                  { s.hold b cell with pass := .reapplying rest } := by
                simp [State.step, hpass]
              rw [hstep] at hdone ⊢
              have hrest := ih _ rfl k hdone
              refine ⟨hrest.loaded.trans (hold_loaded b s cell), fun c => ?_, fun m => ?_⟩
              · have hloaded : (s.hold b cell).loaded = s.loaded := hold_loaded b s cell
                rw [hrest.held c]
                simp only [hold_held, hloaded, List.mem_cons, Task.hold.injEq]
                constructor
                · rintro ((h | ⟨howns, rfl⟩) | ⟨howns, m, hm⟩)
                  · exact .inl h
                  · exact .inr ⟨howns, name, .inl ⟨rfl, rfl⟩⟩
                  · exact .inr ⟨howns, m, .inr hm⟩
                · rintro (h | ⟨howns, m, ⟨-, rfl⟩ | hm⟩)
                  · exact .inl (.inl h)
                  · exact .inl (.inr ⟨howns, rfl⟩)
                  · exact .inr ⟨howns, m, hm⟩
              · rw [hrest.drained m]
                simp
          | prune name =>
              have hstep : s.step b (.reapply true) =
                  { s.prune name with pass := .reapplying rest } := by
                simp [State.step, hpass]
              rw [hstep] at hdone ⊢
              have hrest := ih _ rfl k hdone
              refine ⟨hrest.loaded, fun c => ?_, fun m => ?_⟩
              · rw [hrest.held c]
                simp [State.prune]
              · rw [hrest.drained m]
                simp only [State.prune, mem_eraseName, List.mem_cons, Task.prune.injEq]
                tauto

/-- The state in which a further converge has copied the map. -/
def atSnapshot (s : State Spec Cell) (spec : Spec) (restarts : Bool) : State Spec Cell :=
  { s with
    loaded := if restarts then some spec else s.loaded
    held := fun cell => if restarts then false else s.held cell
    pass := .reapplying (b.tasks spec (sortedNames s.drained)) }

/-- One more converge takes a snapshot and goes through its names. -/
theorem after_furtherPass (s : State Spec Cell) (hpass : s.pass = .none) {spec : Spec}
    (hreapplies : b.reapplies spec = true) (restarts : Bool) (k : Nat) :
    after (State.step b) s (furtherPass spec restarts k) =
      after (State.step b) (atSnapshot b s spec restarts) (List.replicate k (.reapply true)) := by
  cases restarts <;> simp [furtherPass, State.step, hpass, hreapplies, atSnapshot]

/-- Once a run has finished, a further converge of an enabled spec makes the balancer
agree with the map, if it ends with the balancer on that spec's backends. -/
def AgreesAfterwards (file : Option (List String)) (events : List (Event Spec Cell)) : Prop :=
  ∀ (spec : Spec) (restarts : Bool) (k : Nat),
    AllReturned (after (State.step b) (start file) events) → b.reapplies spec = true →
    Apart b spec →
    (restarts = true ∨ Configured b (after (State.step b) (start file) events).loaded spec) →
    (after (State.step b) (start file) (events ++ furtherPass spec restarts k)).pass = .none →
    Agree b (after (State.step b) (start file) (events ++ furtherPass spec restarts k)) spec

/-- Runs whose steps are guarded agree after one more converge. -/
theorem agreesAfterwards_of_guarded (file : Option (List String))
    (events : List (Event Spec Cell))
    (hrun : Along (State.step b) (Guarded b) (start file) events) :
    AgreesAfterwards b file events := by
  intro spec restarts k hreturned hreapplies hapart hconfigured hdone
  have hcovered : Covered b (after (State.step b) (start file) events) :=
    after_invariant _ (covered_step b) (covered_start b file) hrun
  rw [after_append] at hdone ⊢
  generalize after (State.step b) (start file) events = s at hcovered hreturned hconfigured hdone ⊢
  rw [after_furtherPass b s hreturned.2 hreapplies] at hdone ⊢
  have hreapplied := reapplied_of_done b _ _ rfl k hdone
  refine agree_of_reapplied b hapart ?_ ?_ hreapplied
  · cases restarts with
    | true =>
        intro name cell
        simp [atSnapshot, Owns]
    | false => exact hconfigured.resolve_left (by simp)
  · intro cell hheld name howns
    cases restarts with
    | true => simp [atSnapshot] at hheld
    | false => exact hcovered.held_drained b hreturned hheld howns

end Loop

/-- **Drains agree with the live balancer after guarded runs.**  Along every run of
either role in which entries are only set down for recorded backends, names only
forgotten for backends that are free, and the agent only restarted while the file
covers what is held out, one further converge leaves the balancer and the map in
agreement. -/
theorem drains_held (file : Option (List String)) :
    (∀ events : List (Event Dnsdist.Spec String),
      Along (State.step dnsdist) (Guarded dnsdist) (start file) events →
        AgreesAfterwards dnsdist file events) ∧
    (∀ events : List (Event Keepalived.Spec RealServer),
      Along (State.step ipvs) (Guarded ipvs) (start file) events →
        AgreesAfterwards ipvs file events) :=
  ⟨agreesAfterwards_of_guarded dnsdist file, agreesAfterwards_of_guarded ipvs file⟩

/-- dnsdist is told by name, so its backends never share an entry. -/
theorem apart_dnsdist (spec : Dnsdist.Spec) : Apart dnsdist spec := by
  intro cell name _ other _ hname hother
  exact (List.mem_singleton.mp hname).symm.trans (List.mem_singleton.mp hother)

theorem configured_self (b : Balancer Spec Cell) (spec : Spec) : Configured b (some spec) spec := by
  intro name cell
  simp [Owns]

/-- The pool is loaded, and both of its backends are drained. -/
def drainTwoOfPool : List (Event Dnsdist.Spec String) :=
  .reload (some (poolOf ["dns-a", "dns-b"])) :: drainTwo

/-- Two drained backends of a pool stay down. -/
theorem two_drains_held :
    Agree dnsdist
      (after (State.step dnsdist) (start none)
        (drainTwoOfPool ++ furtherPass (poolOf ["dns-a", "dns-b"]) true 3))
      (poolOf ["dns-a", "dns-b"]) := by
  refine (drains_held none).1 drainTwoOfPool ?_ _ true 3 ?_ rfl (apart_dnsdist _) (.inl rfl) rfl
  · -- an entry belongs to the backend of its name, whose drain is under way
    refine ⟨trivial, trivial, ?_, trivial, trivial, trivial, ?_, trivial, trivial, trivial⟩
    · rintro name ⟨spec, -, -, hcell⟩
      obtain rfl := List.mem_singleton.mp hcell
      exact .inr ⟨0, _, _, rfl⟩
    · rintro name ⟨spec, -, -, hcell⟩
      obtain rfl := List.mem_singleton.mp hcell
      exact .inr ⟨1, _, _, rfl⟩
  · refine ⟨fun i => ?_, rfl⟩
    rcases i with _ | _ | i
    · exact .inr rfl
    · exact .inr rfl
    · exact .inl rfl

/-- An undrain runs to its end between the copy of the map and the call that
re-applies the copied name. -/
def undrainDuringReapply : List (Event Dnsdist.Spec String) :=
  .reload (some (poolOf ["dns-a", "dns-b"])) ::
    wholeRequest 0 (poolOf ["dns-a", "dns-b"]) "dns-b" true ++
    [.converge (poolOf ["dns-a", "dns-b"]), .snapshot] ++
    wholeRequest 1 (poolOf ["dns-a", "dns-b"]) "dns-b" false ++
    [.reapply true, .reapply true]

/-- A backend that was undrained stays down. -/
theorem undrained_backend_stays_down :
    ¬ ∀ (file : Option (List String)) (events : List (Event Dnsdist.Spec String)),
      AgreesAfterwards dnsdist file events := by
  intro h
  have hreturned :
      AllReturned (after (State.step dnsdist) (start none) undrainDuringReapply) := by
    refine ⟨fun i => ?_, rfl⟩
    rcases i with _ | _ | i
    · exact .inr rfl
    · exact .inr rfl
    · exact .inl rfl
  have hagree := h none undrainDuringReapply (poolOf ["dns-a", "dns-b"]) false 1 hreturned rfl
    (apart_dnsdist _) (.inr (configured_self dnsdist _)) (by decide +kernel)
  have hdown := (hagree "dns-b" (by decide)).2 (by decide +kernel) "dns-b" (by decide)
  revert hdown
  decide +kernel

end AdguardAdmin.Drains
