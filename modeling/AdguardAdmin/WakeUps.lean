import AdguardAdmin.Manager
/-!
# No lost wake-up

The wake channel holds one token and a send on it never waits, so a signal is
dropped when another is already there.  A dropped signal is covered by the token
that made it be dropped: whoever receives that token takes its snapshot later.

`noLostWakeUp` states this for every state of every run.
-/

namespace AdguardAdmin.Manager

open RunLaws

variable {Spec : Type} {reader : Reader Spec}

/-- A `Put` is between its locked update and its send. -/
def Put.unsignalled : Put reader → Bool
  | .updated _ => true
  | _ => false

/-- The loop has left its select and has not yet taken its snapshot. -/
def Loop.beforeSnapshot : Loop reader → Bool
  | .locking | .locked => true
  | _ => false

namespace Entry

/-- A converge is on its way to the desired spec of this moment, or has it. -/
def Covered (s : Entry reader) : Prop :=
  (∃ i, (s.puts i).unsignalled = true) ∨ s.wake = true ∨ s.loop.beforeSnapshot = true ∨
    s.snapshotHash = some s.desiredHash

theorem covered_load (disk : Disk) : Covered (load reader disk) := .inr (.inr (.inl rfl))

/-- A call that is not waiting to send can change its place without uncovering. -/
theorem Covered.setPut {s : Entry reader} (h : Covered s) {i : Nat} {p : Put reader}
    (hi : (s.puts i).unsignalled = false) : Covered (s.setPut i p) := by
  rcases h with ⟨j, hj⟩ | h
  · have hij : j ≠ i := by
      rintro rfl
      rw [hi] at hj
      cases hj
    exact .inl ⟨j, by simpa [Entry.setPut, hij] using hj⟩
  · exact .inr h

/-- A state with the same snapshot, token and desired spec is covered too. -/
theorem Covered.congr {s t : Entry reader} (h : Covered s) (hputs : t.puts = s.puts)
    (hwake : t.wake = s.wake) (hloop : s.loop.beforeSnapshot = true → t.loop.beforeSnapshot = true)
    (hsnapshot : t.snapshotHash = s.snapshotHash) (hdesired : t.desired = s.desired) :
    Covered t := by
  unfold Covered desiredHash
  rw [hputs, hwake, hsnapshot, hdesired]
  rcases h with h | h | h | h
  · exact .inl h
  · exact .inr (.inl h)
  · exact .inr (.inr (.inl (hloop h)))
  · exact .inr (.inr (.inr h))

/-- One step of anything keeps the entry covered. -/
theorem covered_step (s : Entry reader) (e : Event) (h : Covered s) : Covered (s.step e) := by
  cases e with
  | put i raw =>
      simp only [step]
      split
      · rename_i hi
        split <;> exact h.setPut (by rw [hi]; rfl)
      · exact h
  | writeDesired i result =>
      simp only [step]
      split
      · rename_i d hi
        exact (h.setPut (p := .written d) (by rw [hi]; rfl)).congr rfl rfl id rfl rfl
      · rename_i hi
        exact h.setPut (by rw [hi]; rfl)
      · exact h
  | update i =>
      simp only [step]
      split
      · rename_i d hi
        -- the call itself now owes the signal
        exact .inl ⟨i, by simp [setPut, Put.unsignalled]⟩
      · exact h
  | signal i =>
      simp only [step]
      split
      · exact .inr (.inl rfl)
      · exact h
  | wake => exact .inr (.inl rfl)
  | receive =>
      simp only [step]
      split
      · exact .inr (.inr (.inl rfl))
      · exact h
  | tick =>
      simp only [step]
      split
      · exact .inr (.inr (.inl rfl))
      · exact h
  | done =>
      simp only [step]
      split
      · rename_i hl
        exact h.congr rfl rfl (by simp [hl, Loop.beforeSnapshot]) rfl rfl
      · exact h
  | lock =>
      simp only [step]
      split
      · exact .inr (.inr (.inl rfl))
      · exact h
  | snapshot =>
      simp only [step]
      split
      · exact .inr (.inr (.inr rfl))
      · exact h
  | report state message =>
      simp only [step]
      split
      · exact h.congr rfl rfl id rfl rfl
      · exact h
  | finish result now =>
      simp only [step]
      split
      · rename_i d hl
        exact h.congr rfl rfl (by simp [hl, Loop.beforeSnapshot]) rfl rfl
      · exact h
  | record ok =>
      simp only [step]
      split
      · rename_i c hl
        exact h.congr rfl rfl (by simp [hl, Loop.beforeSnapshot]) rfl rfl
      · exact h
  | tryLock =>
      simp only [step]
      split
      · exact h
      · exact h
      · exact h
      · exact h.congr rfl rfl id rfl rfl
  | unlock => exact h.congr rfl rfl id rfl rfl
  | resetApplied => exact h.congr rfl rfl id rfl rfl
  | recordReset c ok =>
      simp only [step]
      split
      · exact h.congr rfl rfl id rfl rfl
      · exact h

end Entry

/-- **No lost wake-up.**  In every state of every life of the process in which no
`Put` is between its locked update and its send, either the last snapshot was taken
of the spec desired now, or a token is waiting, or the loop is about to take a
snapshot.  In particular a loop that waits at an empty channel has seen it. -/
theorem noLostWakeUp (disk : Disk) (events : List Event) :
    Throughout Entry.step
      (fun s => (∀ i, (s.puts i).unsignalled = false) →
        (s.snapshotHash ≠ some s.desiredHash →
          s.wake = true ∨ s.loop.beforeSnapshot = true) ∧
        (s.loop = .selecting → s.wake = false → s.snapshotHash = some s.desiredHash))
      (load reader disk) events := by
  refine throughout_mono _ ?_ (throughout_of_kept _ Entry.covered_step (Entry.covered_load disk) _)
  intro s hcovered hsignalled
  rcases hcovered with ⟨i, hi⟩ | hwake | hloop | hsnapshot
  · rw [hsignalled i] at hi
    cases hi
  · refine ⟨fun _ => .inl hwake, fun _ hempty => ?_⟩
    rw [hwake] at hempty
    cases hempty
  · refine ⟨fun _ => .inr hloop, fun hselecting => ?_⟩
    rw [hselecting] at hloop
    cases hloop
  · exact ⟨fun hne => absurd hsnapshot hne, fun _ _ => hsnapshot⟩

end AdguardAdmin.Manager
