import Mathlib.Data.List.Nodup
/-!
# Semaphores of an event loop

`asyncio.Semaphore`: a task that finds a permit, and nobody in the queue, has it at once;
any other task joins the queue.  Releasing hands the permit to the first in the queue who has
none yet; he leaves the queue when he runs again, and then hands on what is left, because
others may have queued up behind him although a permit was free.

A permit is free, held by a task, or handed to a waiter who has not run yet.  `free` counts
the first and the last kind; every operation accounts for it.
-/

namespace AsyncSemaphore

/-- The free permits, and the queue: who waits, and whether a permit has been handed to him. -/
structure Semaphore where
  value : Nat
  waiters : List (Nat × Bool)
  deriving DecidableEq, Repr

namespace Semaphore

def new (value : Nat) : Semaphore := ⟨value, []⟩

/-- `acquire`, and whether the task has a permit without waiting.  A waiter whose future is
cancelled is taken out of the queue at once. -/
def acquire (s : Semaphore) (i : Nat) : Semaphore × Bool :=
  if s.value ≠ 0 ∧ s.waiters = [] then ({ s with value := s.value - 1 }, true)
  else ({ s with waiters := s.waiters ++ [(i, false)] }, false)

/-- The first waiter without a permit gets one. -/
def hand : List (Nat × Bool) → Option (List (Nat × Bool))
  | [] => none
  | (i, false) :: rest => some ((i, true) :: rest)
  | (i, true) :: rest => (hand rest).map ((i, true) :: ·)

/-- `_wake_up_next`, and nothing when there was nobody to wake up. -/
def wakeUpNext (s : Semaphore) : Option Semaphore :=
  (hand s.waiters).map (⟨s.value - 1, ·⟩)

/-- Wake up as many as the given number of free permits allows. -/
def wakeUp : Nat → Semaphore → Semaphore
  | 0, s => s
  | n + 1, s =>
      match s.wakeUpNext with
      | none => s
      | some t => wakeUp n t

def release (s : Semaphore) : Semaphore :=
  let freed : Semaphore := { s with value := s.value + 1 }
  freed.wakeUpNext.getD freed

/-- Leaving the queue. -/
def leave (s : Semaphore) (i : Nat) : Semaphore :=
  { s with waiters := s.waiters.filter (·.1 ≠ i) }

/-- Task `i` runs again with the permit it was handed. -/
def resume (s : Semaphore) (i : Nat) : Semaphore :=
  wakeUp (s.leave i).value (s.leave i)

/-- Task `i` has been handed a permit in the queue. -/
def handed (s : Semaphore) (i : Nat) : Bool := (i, true) ∈ s.waiters

/-- Task `i` is cancelled in the queue; it gives back the permit it was handed. -/
def cancel (s : Semaphore) (i : Nat) : Semaphore :=
  let left := s.leave i
  let freed := if s.handed i then { left with value := left.value + 1 } else left
  wakeUp freed.value freed

/-- The waiters with a permit. -/
def woken (s : Semaphore) : Nat := s.waiters.countP (·.2)

/-- The permits that no task has yet. -/
def free (s : Semaphore) : Nat := s.value + s.woken

/-- Who is in the queue. -/
def queue (s : Semaphore) : List Nat := s.waiters.map (·.1)

/-- If somebody waits without a permit, no permit is free or one is being handed over. -/
def Prompt (s : Semaphore) : Prop := ∀ i, (i, false) ∈ s.waiters → s.value = 0 ∨ 0 < s.woken

variable {s t : Semaphore} {i j : Nat}

/-! ## Handing a permit over -/

/-- A permit that is handed over moves nobody in the queue. -/
theorem hand_fst {ws vs : List (Nat × Bool)} (h : hand ws = some vs) :
    vs.map (·.1) = ws.map (·.1) := by
  induction ws generalizing vs with
  | nil => cases h
  | cons w rest ih =>
      obtain ⟨i, handed⟩ := w
      cases handed with
      | false =>
          obtain rfl := Option.some.inj h
          rfl
      | true =>
          obtain ⟨us, hus, rfl⟩ := Option.map_eq_some_iff.mp h
          rw [List.map_cons, List.map_cons, ih hus]

/-- Handing a permit over to somebody who waits wakes one more. -/
theorem hand_countP {ws vs : List (Nat × Bool)} (h : hand ws = some vs) :
    vs.countP (·.2) = ws.countP (·.2) + 1 := by
  induction ws generalizing vs with
  | nil => cases h
  | cons w rest ih =>
      obtain ⟨i, handed⟩ := w
      cases handed with
      | false =>
          obtain rfl := Option.some.inj h
          simp
      | true =>
          obtain ⟨us, hus, rfl⟩ := Option.map_eq_some_iff.mp h
          simp [ih hus]

/-- Nobody is left to be handed a permit exactly when all have one. -/
theorem hand_eq_none {ws : List (Nat × Bool)} : hand ws = none ↔ ∀ i, (i, false) ∉ ws := by
  induction ws with
  | nil => simp [hand]
  | cons w rest ih =>
      obtain ⟨i, handed⟩ := w
      cases handed with
      | false =>
          refine iff_of_false nofun fun h => h i List.mem_cons_self
      | true => simp [hand, ih]

/-! ## Accounts -/

@[simp] theorem free_new (value : Nat) : (new value).free = value := rfl

@[simp] theorem queue_new (value : Nat) : (new value).queue = [] := rfl

/-- Who gets a permit takes a free one. -/
theorem acquire_true (h : s.acquire i = (t, true)) : t.free + 1 = s.free ∧ t.queue = s.queue := by
  unfold acquire at h
  split at h
  · next hfree =>
      obtain rfl := (Prod.mk.inj h).1
      refine ⟨?_, rfl⟩
      simp only [free, woken]
      omega
  · cases (Prod.mk.inj h).2

/-- Who gets no permit joins the queue. -/
theorem acquire_false (h : s.acquire i = (t, false)) :
    t.free = s.free ∧ t.queue = s.queue ++ [i] := by
  unfold acquire at h
  split at h
  · cases (Prod.mk.inj h).2
  · obtain rfl := (Prod.mk.inj h).1
    simp [free, woken, queue]

/-- Waking the next one takes a permit for it. -/
theorem wakeUpNext_spec (h : s.wakeUpNext = some t) :
    t.value = s.value - 1 ∧ t.woken = s.woken + 1 ∧ t.queue = s.queue := by
  obtain ⟨ws, hws, rfl⟩ := Option.map_eq_some_iff.mp h
  exact ⟨rfl, hand_countP hws, hand_fst hws⟩

/-- Waking many takes as many permits as there are. -/
theorem wakeUp_spec (n : Nat) (hn : n ≤ s.value) :
    (wakeUp n s).free = s.free ∧ (wakeUp n s).queue = s.queue := by
  induction n generalizing s with
  | zero => exact ⟨rfl, rfl⟩
  | succ n ih =>
      unfold wakeUp
      split
      · exact ⟨rfl, rfl⟩
      · next t ht =>
          obtain ⟨hvalue, hwoken, hqueue⟩ := wakeUpNext_spec ht
          obtain ⟨hfree, hq⟩ := ih (s := t) (by omega)
          refine ⟨?_, hq.trans hqueue⟩
          rw [hfree]
          simp only [free]
          omega

/-- A release gives one permit back. -/
theorem release_spec : s.release.free = s.free + 1 ∧ s.release.queue = s.queue := by
  unfold release
  simp only
  cases h : ({ s with value := s.value + 1 } : Semaphore).wakeUpNext with
  | none => exact ⟨Nat.add_right_comm _ _ _, rfl⟩
  | some t =>
      obtain ⟨hvalue, hwoken, hqueue⟩ := wakeUpNext_spec h
      refine ⟨?_, hqueue⟩
      simp only [free, woken, Option.getD_some] at hvalue hwoken ⊢
      omega

/-- Who leaves is no longer in the queue. -/
theorem queue_leave : (s.leave i).queue = s.queue.filter (· ≠ i) := by
  simp only [queue, leave, List.filter_map]
  rfl

/-- Whoever leaves the queue takes his permit along. -/
theorem woken_leave (hs : s.queue.Nodup) (b : Bool) (hi : (i, b) ∈ s.waiters) :
    (s.leave i).woken + b.toNat = s.woken := by
  obtain ⟨value, waiters⟩ := s
  simp only [queue, leave, woken] at hs hi ⊢
  induction waiters with
  | nil => cases hi
  | cons w rest ih =>
      obtain ⟨j, handed⟩ := w
      obtain ⟨hj, hrest⟩ := List.nodup_cons.mp hs
      rcases List.mem_cons.mp hi with heq | hmem
      · obtain ⟨rfl, rfl⟩ := Prod.mk.inj heq
        have hothers : rest.filter (·.1 ≠ i) = rest := by
          refine List.filter_eq_self.mpr fun w hw => decide_eq_true fun hwi => hj ?_
          exact List.mem_map.mpr ⟨w, hw, hwi⟩
        rw [List.filter_cons_of_neg (by simp), hothers, List.countP_cons]
        cases b <;> rfl
      · have hne : j ≠ i := fun hji => hj (List.mem_map.mpr ⟨_, hmem, hji.symm⟩)
        have htail := ih hrest hmem
        rw [List.filter_cons_of_pos (by simpa using hne), List.countP_cons, List.countP_cons]
        omega

/-- Who resumes takes the permit kept for it. -/
theorem resume_spec (hs : s.queue.Nodup) (hi : (i, true) ∈ s.waiters) :
    (s.resume i).free + 1 = s.free ∧ (s.resume i).queue = s.queue.filter (· ≠ i) := by
  obtain ⟨hfree, hqueue⟩ := wakeUp_spec (s := s.leave i) _ (Nat.le_refl _)
  have hleft := woken_leave hs true hi
  refine ⟨?_, hqueue.trans queue_leave⟩
  rw [resume, hfree]
  simp only [free, leave, woken, Bool.toNat_true] at hleft ⊢
  omega

/-- Who is cancelled gives the permit back that was kept for it. -/
theorem cancel_spec (hs : s.queue.Nodup) {b : Bool} (hi : (i, b) ∈ s.waiters) :
    (s.cancel i).free = s.free ∧ (s.cancel i).queue = s.queue.filter (· ≠ i) := by
  have hleft := woken_leave hs b hi
  have hhanded : s.handed i = true ↔ b = true := by
    rw [handed, decide_eq_true_eq]
    constructor
    · intro htrue
      exact (Prod.mk.inj (List.inj_on_of_nodup_map hs hi htrue rfl)).2
    · rintro rfl
      exact hi
  unfold cancel
  simp only
  obtain ⟨hfree, hqueue⟩ := wakeUp_spec (s := if s.handed i then
    { s.leave i with value := (s.leave i).value + 1 } else s.leave i) _ (Nat.le_refl _)
  refine ⟨?_, hqueue.trans ?_⟩
  · rw [hfree]
    cases b with
    | true =>
        rw [if_pos (hhanded.mpr rfl)]
        simp only [free, leave, woken, Bool.toNat_true] at hleft ⊢
        omega
    | false =>
        rw [if_neg fun h => Bool.false_ne_true (hhanded.mp h)]
        simp only [free, leave, woken, Bool.toNat_false] at hleft ⊢
        omega
  · split <;> exact queue_leave

/-! ## Nobody is forgotten -/

/-- No permit is left to those who wait after all are woken. -/
theorem prompt_wakeUp (s : Semaphore) : Prompt (wakeUp s.value s) := by
  suffices h : ∀ n (s : Semaphore), s.value = n → Prompt (wakeUp n s) from h _ s rfl
  intro n
  induction n with
  | zero => exact fun s hs i _ => .inl hs
  | succ n ih =>
      intro s hs
      unfold wakeUp
      split
      · next hnone =>
          have hall := hand_eq_none.mp (Option.map_eq_none_iff.mp hnone)
          exact fun i hi => absurd hi (hall i)
      · next t ht => exact ih t (by have := (wakeUpNext_spec ht).1; omega)

/-- A release leaves nobody waiting for a permit that is free and not being handed over. -/
theorem prompt_release : s.release.Prompt := by
  intro i hi
  unfold release at hi ⊢
  simp only at hi ⊢
  cases hnext : ({ s with value := s.value + 1 } : Semaphore).wakeUpNext with
  | none =>
      rw [hnext] at hi
      exact absurd hi (hand_eq_none.mp (Option.map_eq_none_iff.mp hnext) i)
  | some t =>
      right
      rw [Option.getD_some, (wakeUpNext_spec hnext).2.1]
      exact Nat.succ_pos _

/-- Asking for a permit leaves nobody waiting for one that is free and not being handed over. -/
theorem prompt_acquire (h : s.Prompt) (i : Nat) : (s.acquire i).1.Prompt := by
  unfold acquire
  split
  · next hfree =>
      intro j hj
      rw [hfree.2] at hj
      cases hj
  · next hbusy =>
      intro j hj
      have hwoken : ({ s with waiters := s.waiters ++ [(i, false)] } : Semaphore).woken =
          s.woken := by simp [woken]
      rw [hwoken]
      rcases List.mem_append.mp hj with hold | hnew
      · exact h j hold
      by_cases hvalue : s.value = 0
      · exact .inl hvalue
      -- a permit is free, so the queue was not empty: its members have one or wait for one
      have hqueue : s.waiters ≠ [] := fun hempty => hbusy ⟨hvalue, hempty⟩
      obtain ⟨⟨k, handed⟩, hk⟩ := List.exists_mem_of_ne_nil _ hqueue
      cases handed with
      | true => exact .inr (List.countP_pos_iff.mpr ⟨_, hk, rfl⟩)
      | false => exact h k hk

end Semaphore

end AsyncSemaphore
