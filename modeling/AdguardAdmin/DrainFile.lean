import AdguardAdmin.Drains
/-!
# The drained names on disk

`SetDrained` copies the map under its lock and writes the copy afterwards, so two
requests can write their copies in the other order; and `reapplyDrains` prunes the
map without writing at all.  Away from both, the file follows the map.

`drains_persist` is about every run: once all requests have returned, a role built
on the same directory starts with the set the old one had.
-/

namespace AdguardAdmin.Drains

open RunLaws

variable {Spec Cell : Type}

def SameNames (xs ys : List String) : Prop := ∀ name, name ∈ xs ↔ name ∈ ys

/-- Every request that was made has returned without error, and no converge runs. -/
def AllReturned (s : State Spec Cell) : Prop :=
  (∀ i, s.requests i = .idle ∨ s.requests i = .returned) ∧ s.pass = .none

/-- A file is written only by a request whose locked section came no earlier than
the one the file is from, and a prune finds nothing to remove. -/
def InOrder (s : State Spec Cell) : Event Spec Cell → Prop
  | .write i true =>
      match s.requests i with
      | .recorded _ version => s.fileVersion ≤ version
      | _ => True
  | .reapply _ =>
      match s.pass with
      | .reapplying (.prune name :: _) => name ∉ s.drained
      | _ => True
  | _ => True

/-- The file is from the last locked section, or the request of that section has
still to write it, or some request has failed. -/
structure Tracked (s : State Spec Cell) : Prop where
  file_le : s.fileVersion ≤ s.version
  carried : ∀ i names version, s.requests i = .recorded names version →
    version ≤ s.version ∧ (version = s.version → SameNames names s.drained)
  current : s.fileVersion = s.version → SameNames (stored s.file) s.drained
  behind : s.fileVersion < s.version →
    ∃ i, s.requests i = .failed ∨ ∃ names, s.requests i = .recorded names s.version

namespace Tracked

variable {s t : State Spec Cell}

/-- The start is tracked. -/
theorem start (file : Option (List String)) : Tracked (start file : State Spec Cell) where
  file_le := le_refl 0
  carried i names version h := by cases h
  current _ name := Iff.rfl
  behind h := absurd h (lt_irrefl 0)

/-- The map may change without changing its names, and requests may move as long as
none gains a copy to write and none that has one, or has failed, loses it. -/
theorem congr (h : Tracked s) (hdrained : SameNames t.drained s.drained) (hfile : t.file = s.file)
    (hversion : t.version = s.version) (hfileVersion : t.fileVersion = s.fileVersion)
    (hcarried : ∀ i names version, t.requests i = .recorded names version →
      s.requests i = .recorded names version)
    (howes : ∀ i, (s.requests i = .failed ∨ ∃ names version, s.requests i = .recorded names version) →
      t.requests i = s.requests i ∨ t.requests i = .failed) : Tracked t where
  file_le := by rw [hversion, hfileVersion]; exact h.file_le
  carried i names version hi := by
    have hs := h.carried i names version (hcarried i names version hi)
    rw [hversion]
    exact ⟨hs.1, fun hv name => (hs.2 hv name).trans (hdrained name).symm⟩
  current hv name := by
    rw [hversion, hfileVersion] at hv
    rw [hfile]
    exact (h.current hv name).trans (hdrained name).symm
  behind hv := by
    rw [hversion, hfileVersion] at hv
    obtain ⟨i, hi⟩ := h.behind hv
    refine ⟨i, ?_⟩
    rw [hversion]
    have hkept := howes i (hi.imp id fun ⟨names, hn⟩ => ⟨names, s.version, hn⟩)
    rcases hkept with heq | hfailed
    · rw [heq]
      exact hi
    · exact .inl hfailed

/-- A request without a copy to write can move to any place without one. -/
theorem setRequest (h : Tracked s) {i : Nat} {r : Request Spec Cell}
    (hi : s.requests i ≠ .failed ∧ ∀ names version, s.requests i ≠ .recorded names version)
    (hr : ∀ names version, r ≠ .recorded names version) : Tracked (s.setRequest i r) := by
  refine h.congr (fun _ => Iff.rfl) rfl rfl rfl ?_ ?_
  · intro j names version hj
    by_cases hij : j = i
    · subst hij
      simp only [State.setRequest, Function.update_self] at hj
      exact absurd hj (hr names version)
    · simpa [State.setRequest, hij] using hj
  · rintro j hj
    have hij : j ≠ i := by
      rintro rfl
      rcases hj with hj | ⟨names, version, hj⟩
      · exact hi.1 hj
      · exact hi.2 names version hj
    exact .inl (by simp [State.setRequest, hij])

/-- A state that agrees in what the drain file depends on is tracked too. -/
theorem same (h : Tracked s) (hdrained : t.drained = s.drained) (hfile : t.file = s.file)
    (hversion : t.version = s.version) (hfileVersion : t.fileVersion = s.fileVersion)
    (hrequests : t.requests = s.requests) : Tracked t := by
  refine h.congr (fun name => by rw [hdrained]) hfile hversion hfileVersion ?_ ?_
  · intro i names version hi
    rwa [hrequests] at hi
  · intro i _
    exact .inl (by rw [hrequests])

/-- A locked section hands its copy of the map to its own write. -/
theorem record (h : Tracked s) (i : Nat) (drained : List String) :
    Tracked { s.setRequest i (.recorded (sortedNames drained) (s.version + 1)) with
      drained := drained
      version := s.version + 1 } where
  file_le := Nat.le_succ_of_le h.file_le
  carried j names version hj := by
    by_cases hij : j = i
    · subst hij
      simp only [State.setRequest, Function.update_self, Request.recorded.injEq] at hj
      obtain ⟨rfl, rfl⟩ := hj
      exact ⟨le_refl _, fun _ name => mem_sortedNames⟩
    · have hold : s.requests j = .recorded names version := by
        simpa [State.setRequest, hij] using hj
      have hle := (h.carried j names version hold).1
      exact ⟨by show version ≤ s.version + 1; omega, fun heq => by
        have : version = s.version + 1 := heq
        omega⟩
  current heq := by
    have hle := h.file_le
    have : s.fileVersion = s.version + 1 := heq
    omega
  behind _ := ⟨i, .inr ⟨sortedNames drained, by simp [State.setRequest]⟩⟩

/-- A write in order leaves the file at its own section. -/
theorem write (h : Tracked s) {i : Nat} {names : List String} {version : Nat}
    (hi : s.requests i = .recorded names version) (horder : s.fileVersion ≤ version) :
    Tracked { s.setRequest i .returned with file := some names, fileVersion := version } where
  file_le := (h.carried i names version hi).1
  carried j names' version' hj := by
    have hij : j ≠ i := by
      rintro rfl
      simp [State.setRequest] at hj
    exact h.carried j names' version' (by simpa [State.setRequest, hij] using hj)
  current heq := (h.carried i names version hi).2 heq
  behind hlt := by
    have hnewer : version < s.version := hlt
    obtain ⟨j, hj⟩ := h.behind (lt_of_le_of_lt horder hnewer)
    -- the writer itself carried an older copy
    have hij : j ≠ i := by
      rintro rfl
      rcases hj with hj | ⟨names', hj⟩
      · rw [hi] at hj
        cases hj
      · rw [hi] at hj
        obtain ⟨-, rfl⟩ := Request.recorded.inj hj
        exact absurd hnewer (lt_irrefl _)
    exact ⟨j, by simpa [State.setRequest, hij] using hj⟩

/-- A failed write leaves a failed request behind. -/
theorem writeFails (h : Tracked s) (i : Nat) : Tracked (s.setRequest i .failed) := by
  refine h.congr (fun _ => Iff.rfl) rfl rfl rfl ?_ ?_
  · intro j names version hj
    by_cases hij : j = i
    · subst hij
      simp [State.setRequest] at hj
    · simpa [State.setRequest, hij] using hj
  · intro j _
    by_cases hij : j = i
    · subst hij
      exact .inr (by simp [State.setRequest])
    · exact .inl (by simp [State.setRequest, hij])

/-- A prune of a name that is not drained changes nothing that is tracked. -/
theorem prune (h : Tracked s) {name : String} (hname : name ∉ s.drained) :
    Tracked (s.prune name) := by
  refine h.congr ?_ rfl rfl rfl (fun _ _ _ hi => hi) (fun _ _ => .inl rfl)
  intro m
  simp only [State.prune, mem_eraseName]
  constructor
  · exact And.left
  · intro hm
    exact ⟨hm, fun heq => hname (heq ▸ hm)⟩

/-- A restart reads the map from the file. -/
theorem restart (s : State Spec Cell) :
    Tracked { s with
      drained := stored s.file
      requests := fun i => State.cutOff (s.requests i)
      pass := .none
      fileVersion := s.version } where
  file_le := le_refl _
  carried i names version hi := by
    have hcut : State.cutOff (s.requests i) = .recorded names version := hi
    cases hr : s.requests i <;> simp [State.cutOff, hr] at hcut
  current _ name := Iff.rfl
  behind hlt := absurd hlt (lt_irrefl _)

end Tracked

variable [DecidableEq Cell] (b : Balancer Spec Cell)

/-- One step in order keeps the file tracked. -/
theorem tracked_step (s : State Spec Cell) (e : Event Spec Cell) (h : Tracked s)
    (hc : InOrder s e) : Tracked (s.step b e) := by
  cases e with
  | request i spec name drain =>
      simp only [State.step]
      split
      · rename_i hi
        split <;> exact h.setRequest (by simp [hi]) (by simp)
      · exact h
  | call i ok =>
      simp only [State.step]
      split
      · rename_i spec name drain cell todo hi
        split
        · have hmoved := h.setRequest (r := .calling spec name drain todo) (i := i)
            (by simp [hi]) (by simp)
          split
          · unfold State.hold
            split
            · exact hmoved.same rfl rfl rfl rfl rfl
            · exact hmoved
          · exact hmoved.same rfl rfl rfl rfl rfl
        · exact h.setRequest (by simp [hi]) (by simp)
      · exact h
  | record i =>
      simp only [State.step]
      split
      · exact h.record i _
      · exact h
  | write i ok =>
      simp only [State.step]
      split
      · rename_i names version hi
        cases ok with
        | true =>
            simp only [InOrder, hi] at hc
            exact h.write hi hc
        | false => exact h.writeFails i
      · exact h
  | reapply ok =>
      simp only [State.step]
      split
      · exact h.same rfl rfl rfl rfl rfl
      · split
        · unfold State.hold
          split <;> exact h.same rfl rfl rfl rfl rfl
        · exact h.same rfl rfl rfl rfl rfl
      · rename_i name todo hpass
        simp only [InOrder, hpass] at hc
        exact (h.prune hc).same rfl rfl rfl rfl rfl
      · exact h
  | snapshot =>
      simp only [State.step]
      split
      · split <;> exact h.same rfl rfl rfl rfl rfl
      · exact h
  | converge spec =>
      simp only [State.step]
      split
      · exact h.same rfl rfl rfl rfl rfl
      · exact h
  | abort =>
      simp only [State.step]
      split
      · exact h.same rfl rfl rfl rfl rfl
      · exact h
  | reload loaded => exact h.same rfl rfl rfl rfl rfl
  | rewrite cell => exact h.same rfl rfl rfl rfl rfl
  | restart => exact Tracked.restart s

/-- The file and the map agree, and so does the map of a role built on the file. -/
def Persisted (s : State Spec Cell) : Prop :=
  AllReturned s →
    SameNames (stored s.file) s.drained ∧ SameNames (s.step b .restart).drained s.drained

/-- What is tracked is on disk. -/
theorem Tracked.persisted {s : State Spec Cell} (h : Tracked s) : Persisted b s := by
  rintro ⟨hreturned, -⟩
  have hnotowing : ∀ i, ¬(s.requests i = .failed ∨
      ∃ names, s.requests i = .recorded names s.version) := by
    rintro i (hi | ⟨names, hi⟩) <;> rcases hreturned i with hr | hr <;> rw [hr] at hi <;> cases hi
  have hcurrent : s.fileVersion = s.version := by
    by_contra hne
    obtain ⟨i, hi⟩ := h.behind (lt_of_le_of_ne h.file_le hne)
    exact hnotowing i hi
  exact ⟨h.current hcurrent, h.current hcurrent⟩

/-- Along a run in order, whenever all requests have returned the file and the map
agree. -/
theorem persisted_of_inOrder (file : Option (List String)) (events : List (Event Spec Cell))
    (hrun : Along (State.step b) InOrder (start file) events) :
    Throughout (State.step b) (Persisted b) (start file) events :=
  throughout_mono _ (fun _ h => h.persisted b)
    (throughout_of_invariant _ (tracked_step b) (Tracked.start file) hrun)

/-- **Drains survive a restart when writes keep the order of the locked sections
and nothing is pruned.** -/
theorem drains_persist (file : Option (List String)) :
    (∀ events : List (Event Dnsdist.Spec String),
      Along (State.step dnsdist) InOrder (start file) events →
        Throughout (State.step dnsdist) (Persisted dnsdist) (start file) events) ∧
    (∀ events : List (Event Keepalived.Spec RealServer),
      Along (State.step ipvs) InOrder (start file) events →
        Throughout (State.step ipvs) (Persisted ipvs) (start file) events) :=
  ⟨persisted_of_inOrder dnsdist file, persisted_of_inOrder ipvs file⟩

/-! ## A prune that is not written -/

/-- A dnsdist spec with these backends. -/
def poolOf (names : List String) : Dnsdist.Spec where
  enabled := true
  installMethod := "docker"
  image := Dnsdist.defaultImage
  listen := ["0.0.0.0:53"]
  policy := "leastOutstanding"
  ecs := true
  cache := ⟨false, 100000⟩
  healthcheck := Dnsdist.defaultHealthcheck
  acl := Dnsdist.defaultAcl
  backends := names.map fun name => ⟨name, "10.0.0.12", 53, 1, 1⟩

/-- One request to the end, alone. -/
def wholeRequest (i : Nat) (spec : Dnsdist.Spec) (name : String) (drain : Bool) :
    List (Event Dnsdist.Spec String) :=
  [.request i spec name drain, .call i true, .record i, .write i true]

def drainTwo : List (Event Dnsdist.Spec String) :=
  wholeRequest 0 (poolOf ["dns-a", "dns-b"]) "dns-a" true ++
    wholeRequest 1 (poolOf ["dns-a", "dns-b"]) "dns-b" true

/-- Two drains one after the other are both on disk. -/
theorem two_drains_persist :
    SameNames
      (stored (after (State.step dnsdist) (start none) drainTwo).file)
      (after (State.step dnsdist) (start none) drainTwo).drained := by
  refine (throughout_last _ ((drains_persist none).1 drainTwo ?_) ?_).1
  · exact ⟨trivial, trivial, trivial, Nat.zero_le 1, trivial, trivial, trivial, Nat.le_succ 1, trivial⟩
  · refine ⟨fun i => ?_, rfl⟩
    rcases i with _ | _ | i
    · exact .inr rfl
    · exact .inr rfl
    · exact .inl rfl

/-- A drained backend leaves the spec. -/
def drainThenLeave : List (Event Dnsdist.Spec String) :=
  wholeRequest 0 (poolOf ["dns-a", "dns-b"]) "dns-b" true ++
    [.converge (poolOf ["dns-a"]), .reload (some (poolOf ["dns-a"])), .snapshot, .reapply true,
      .reapply true]

/-- A prune that is not written lets a drained name come back. -/
theorem pruned_drain_returns :
    ¬ ∀ (file : Option (List String)) (events : List (Event Dnsdist.Spec String)),
      Throughout (State.step dnsdist) (Persisted dnsdist) (start file) events := by
  intro h
  have hreturned : AllReturned (after (State.step dnsdist) (start none) drainThenLeave) := by
    refine ⟨fun i => ?_, rfl⟩
    rcases i with _ | i
    · exact .inr rfl
    · exact .inl rfl
  have hfile := (throughout_last _ (h none drainThenLeave) hreturned).1 "dns-b"
  revert hfile
  decide +kernel

end AdguardAdmin.Drains
