import AdguardAdmin.DrainsHeld
/-!
# Operations on a role, one after another

What a drain request, and a converge, has done to the map and to the file when it has
run from beginning to end with nothing else under way.

A request that does not get through its calls changes neither; one that does changes
the map at once and the file if its write succeeds.  A converge takes the names off
the map that its spec does not have, however its calls end.
-/

namespace AdguardAdmin.Drains

open RunLaws

variable {Spec Cell : Type}

/-- Nothing is under way any more. -/
def State.settled (s : State Spec Cell) : State Spec Cell :=
  { s with requests := fun _ => .idle, pass := .none }

/-- A request up to its last call to the balancer. -/
def asking (spec : Spec) (name : String) (drain : Bool) (calls : List Bool) :
    List (Event Spec Cell) :=
  .request 0 spec name drain :: calls.map (.call 0)

/-- Its locked section and its write. -/
def recording (written : Bool) : List (Event Spec Cell) := [.record 0, .write 0 written]

/-- The balancer has been told everything; the map has not changed yet. -/
def State.told (s : State Spec Cell) : Bool :=
  match s.requests 0 with
  | .calling _ _ _ [] => true
  | _ => false

/-- The request has been answered with success. -/
def State.succeeded (s : State Spec Cell) : Bool :=
  match s.requests 0 with
  | .returned => true
  | _ => false

/-- A converge: it may restart the balancer, and the calls for its drains are answered
in turn. -/
def convergeRun (spec : Spec) (restarts : Bool) (calls : List Bool) : List (Event Spec Cell) :=
  .converge spec :: ((if restarts then [.reload (some spec)] else []) ++
    .snapshot :: calls.map .reapply)

/-- A converge whose calls all succeed is the further converge of a run that has
finished. -/
theorem convergeRun_eq_furtherPass (spec : Spec) (restarts : Bool) {calls : List Bool}
    (hcalls : ∀ ok ∈ calls, ok = true) :
    (convergeRun spec restarts calls : List (Event Spec Cell)) =
      furtherPass spec restarts calls.length := by
  have hmap : calls.map (Event.reapply : Bool → Event Spec Cell) =
      List.replicate calls.length (.reapply true) := by
    rw [List.eq_replicate_of_mem hcalls, List.map_replicate, List.length_replicate]
  rw [convergeRun, furtherPass, hmap]

variable [DecidableEq Cell] (b : Balancer Spec Cell)

/-! ## A request -/

/-- A request under way, or refused: neither map nor file has changed. -/
structure Asked (s t : State Spec Cell) (spec : Spec) (name : String) (drain : Bool) : Prop where
  drained : t.drained = s.drained
  file : t.file = s.file
  request : t.requests 0 = .failed ∨
    (∃ todo, t.requests 0 = .calling spec name drain todo) ∧ b.manages spec ∧ name ∈ b.names spec

namespace Asked

variable {b} {s t : State Spec Cell} {spec : Spec} {name : String} {drain : Bool}

/-- A request that begins asks for its own cells. -/
theorem request_settled (s : State Spec Cell) (spec : Spec) (name : String) (drain : Bool) :
    Asked b s (s.settled.step b (.request 0 spec name drain)) spec name drain := by
  have hidle : s.settled.requests 0 = .idle := rfl
  simp only [State.step, hidle]
  split
  · rename_i hserved
    exact ⟨rfl, rfl, .inr ⟨⟨b.cells spec name, by simp [State.setRequest]⟩, hserved⟩⟩
  · exact ⟨rfl, rfl, .inl (by simp [State.setRequest])⟩

/-- Each call goes on with the cells of its request. -/
theorem call (h : Asked b s t spec name drain) (ok : Bool) :
    Asked b s (t.step b (.call 0 ok)) spec name drain := by
  rcases h.request with hfailed | ⟨⟨todo, hcalling⟩, hserved⟩
  · simpa only [State.step, hfailed] using h
  · cases todo with
    | nil => simpa only [State.step, hcalling] using h
    | cons cell todo =>
        simp only [State.step, hcalling]
        cases ok with
        | false => exact ⟨h.drained, h.file, .inl (by simp [State.setRequest])⟩
        | true =>
            refine ⟨?_, ?_, .inr ⟨⟨todo, by simp [State.setRequest]⟩, hserved⟩⟩
            · cases drain <;> simp [State.setRequest, State.release, h.drained]
            · cases drain <;> simp [State.setRequest, State.hold, State.release, h.file, apply_ite]

/-- A whole request of a drain has asked for it, cell by cell. -/
theorem asking (s : State Spec Cell) (spec : Spec) (name : String) (drain : Bool)
    (calls : List Bool) :
    Asked b s (after (State.step b) s.settled (asking spec name drain calls)) spec name drain := by
  have hcalls : ∀ t, Asked b s t spec name drain →
      Asked b s (after (State.step b) t (calls.map (.call 0))) spec name drain := by
    induction calls with
    | nil => exact fun t ht => ht
    | cons ok calls ih => exact fun t ht => ih _ (ht.call ok)
  exact hcalls _ (request_settled s spec name drain)

/-- A request that has not got through changes nothing any more. -/
theorem recording_of_not_told (h : Asked b s t spec name drain) (htold : t.told = false)
    (written : Bool) :
    after (State.step b) t (recording written) = t ∧ t.succeeded = false := by
  rcases h.request with hfailed | ⟨⟨todo, hcalling⟩, -⟩
  · simp [recording, State.step, hfailed, State.succeeded]
  · cases todo with
    | nil => simp [State.told, hcalling] at htold
    | cons cell todo => simp [recording, State.step, hcalling, State.succeeded]

/-- A request that has got through is served, changes the map, and the file if its
write succeeds. -/
theorem recording_of_told (h : Asked b s t spec name drain) (htold : t.told = true)
    (written : Bool) :
    (b.manages spec ∧ name ∈ b.names spec) ∧
      (after (State.step b) t (recording written)).drained = s.drainedAfter name drain ∧
      (after (State.step b) t (recording written)).file =
        (if written then some (sortedNames (s.drainedAfter name drain)) else s.file) ∧
      (after (State.step b) t (recording written)).succeeded = written := by
  rcases h.request with hfailed | ⟨⟨todo, hcalling⟩, hserved⟩
  · simp [State.told, hfailed] at htold
  · cases todo with
    | cons cell todo => simp [State.told, hcalling] at htold
    | nil =>
        have hafter : t.drainedAfter name drain = s.drainedAfter name drain := by
          simp [State.drainedAfter, h.drained]
        refine ⟨hserved, ?_⟩
        cases written <;>
          simp [recording, State.step, hcalling, State.setRequest, State.succeeded, hafter, h.file]

end Asked

/-! ## A converge -/

/-- The name stays on the map whatever the rest of the converge does. -/
structure Keeping (name : String) (file : Option (List String)) (s : State Spec Cell) : Prop where
  drained : name ∈ s.drained
  file : s.file = file
  tasks : ∀ todo, s.pass = .reapplying todo → .prune name ∉ todo

/-- A drained name is kept while its cells are applied again. -/
theorem Keeping.reapply {name : String} {file : Option (List String)} {s : State Spec Cell}
    (h : Keeping name file s) (ok : Bool) : Keeping name file (s.step b (.reapply ok)) := by
  cases hpass : s.pass with
  | none => simpa only [State.step, hpass] using h
  | started spec => simpa only [State.step, hpass] using h
  | reapplying todo =>
      cases todo with
      | nil =>
          simp only [State.step, hpass]
          exact ⟨h.drained, h.file, by simp⟩
      | cons task todo =>
          have htasks := h.tasks _ hpass
          rw [List.mem_cons, not_or] at htasks
          cases task with
          | hold other cell =>
              simp only [State.step, hpass]
              split
              · refine ⟨by simpa using h.drained, ?_, ?_⟩
                · rw [← h.file]
                  unfold State.hold
                  split <;> rfl
                · rintro _ ⟨⟩
                  exact htasks.2
              · exact ⟨h.drained, h.file, by simp⟩
          | prune other =>
              simp only [State.step, hpass]
              have hne : name ≠ other := fun heq => htasks.1 (congrArg Task.prune heq)
              refine ⟨mem_eraseName.mpr ⟨h.drained, hne⟩, h.file, ?_⟩
              rintro _ ⟨⟩
              exact htasks.2

/-- **A converge keeps the drains of its spec** and leaves the file alone. -/
theorem Keeping.convergeRun {name : String} {s : State Spec Cell} {spec : Spec}
    (hdrained : name ∈ s.drained) (hspec : b.reapplies spec = true → name ∈ b.names spec)
    (restarts : Bool) (calls : List Bool) :
    Keeping name s.file
      (after (State.step b) s.settled (convergeRun spec restarts calls)) := by
  have hcalls : ∀ t, Keeping name s.file t →
      Keeping name s.file (after (State.step b) t (calls.map .reapply)) := by
    induction calls with
    | nil => exact fun t ht => ht
    | cons ok calls ih => exact fun t ht => ih _ (ht.reapply b ok)
  have hsnapshot : Keeping name s.file
      ({ s.settled with pass := .started spec }.step b .snapshot) ∧
      Keeping name s.file (({ s.settled with pass := .started spec }.step b
        (.reload (some spec))).step b .snapshot) := by
    simp only [State.step, State.settled]
    split
    · rename_i hreapplies
      have htask : .prune name ∉ b.tasks spec (sortedNames s.drained) := by
        rw [prune_mem_tasks]
        exact fun h => h.2 (hspec hreapplies)
      refine ⟨⟨hdrained, rfl, ?_⟩, ⟨hdrained, rfl, ?_⟩⟩ <;>
        · rintro _ ⟨⟩
          exact htask
    · exact ⟨⟨hdrained, rfl, by simp⟩, ⟨hdrained, rfl, by simp⟩⟩
  cases restarts with
  | false => exact hcalls _ hsnapshot.1
  | true => exact hcalls _ hsnapshot.2

/-- **A converge holds out the drains of its spec** when its calls succeed. -/
theorem held_of_convergeRun {name : String} {s : State Spec Cell} {spec : Spec}
    (hreapplies : b.reapplies spec = true) (hdrained : name ∈ s.drained)
    (hname : name ∈ b.names spec) {restarts : Bool}
    (hconfigured : restarts = true ∨ Configured b s.loaded spec) {calls : List Bool}
    (hcalls : ∀ ok ∈ calls, ok = true)
    (hdone : (after (State.step b) s.settled (convergeRun spec restarts calls)).pass = .none) :
    ∀ cell ∈ b.cells spec name,
      (after (State.step b) s.settled (convergeRun spec restarts calls)).held cell = true := by
  rw [convergeRun_eq_furtherPass spec restarts hcalls,
    after_furtherPass b _ rfl hreapplies] at hdone ⊢
  have hreapplied := reapplied_of_done b _ _ rfl _ hdone
  intro cell hcell
  have hloaded : Configured b (atSnapshot b s.settled spec restarts).loaded spec := by
    cases restarts with
    | true => exact configured_self b spec
    | false => exact hconfigured.resolve_left (by simp)
  have htask : .hold name cell ∈ b.tasks spec (sortedNames s.settled.drained) :=
    (hold_mem_tasks b).mpr ⟨mem_sortedNames.mpr hdrained, hname, hcell⟩
  exact (hreapplied.held cell).mpr
    (.inr ⟨⟨name, (hloaded name cell).mpr ⟨hname, hcell⟩⟩, name, htask⟩)

end AdguardAdmin.Drains
