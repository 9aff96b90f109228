import Mathlib
import AdguardAdmin.AsyncSemaphore
import AdguardAdmin.RunLaws
/-!
# Gathering calls a few at a time

`asyncio.gather` over tasks that each make their call inside one semaphore.  The tasks run in
any order and may be cancelled anywhere; the results are in the order of the tasks.

* `inFlight_le` — in every run, no more calls are in flight than the semaphore has permits;
* `settled_of_idle` — when nothing can move any more, all tasks are settled;
* `moves_le` — a run moves a task three times at most;
* `settled_own` — a task that is not cancelled is settled with what its own call gave.
-/

namespace BoundedGather

open AsyncSemaphore RunLaws

/-- Where a task is. -/
inductive Phase (ρ : Type) where
  | created
  /-- In the queue of the semaphore. -/
  | waiting
  /-- Its call is in flight. -/
  | calling
  | settled (r : ρ)
  deriving DecidableEq, Repr

def Phase.isCalling {ρ : Type} : Phase ρ → Bool
  | .calling => true
  | .created | .waiting | .settled _ => false

/-- How far a task has come. -/
def Phase.rank {ρ : Type} : Phase ρ → Nat
  | .created => 0
  | .waiting => 1
  | .calling => 2
  | .settled _ => 3

structure Gather (ρ : Type) where
  semaphore : Semaphore
  phases : List (Phase ρ)
  deriving DecidableEq, Repr

inductive Event where
  | start (i : Nat)
  | resume (i : Nat)
  | finish (i : Nat)
  | cancel (i : Nat)
  deriving DecidableEq, Repr

namespace Gather

variable {ρ : Type} (body : Nat → ρ) (cancelled : ρ)

def begin (permits tasks : Nat) : Gather ρ := ⟨.new permits, List.replicate tasks .created⟩

def put (g : Gather ρ) (s : Semaphore) (i : Nat) (p : Phase ρ) : Gather ρ := ⟨s, g.phases.set i p⟩

/-- A task reaches the semaphore. -/
def start (g : Gather ρ) (i : Nat) : Gather ρ :=
  match g.phases[i]? with
  | some .created =>
      match g.semaphore.acquire i with
      | (s, true) => g.put s i .calling
      | (s, false) => g.put s i .waiting
  | _ => g

/-- A task runs again with the permit it was handed. -/
def resume (g : Gather ρ) (i : Nat) : Gather ρ :=
  if g.semaphore.handed i then g.put (g.semaphore.resume i) i .calling else g

/-- The call of a task ends. -/
def finish (g : Gather ρ) (i : Nat) : Gather ρ :=
  match g.phases[i]? with
  | some .calling => g.put g.semaphore.release i (.settled (body i))
  | _ => g

/-- A task is cancelled before its call, in the queue, or while its call is in flight. -/
def cancel (g : Gather ρ) (i : Nat) : Gather ρ :=
  match g.phases[i]? with
  | some .created => g.put g.semaphore i (.settled cancelled)
  | some .waiting => g.put (g.semaphore.cancel i) i (.settled cancelled)
  | some .calling => g.put g.semaphore.release i (.settled cancelled)
  | _ => g

/-- What cannot happen changes nothing. -/
def step (g : Gather ρ) : Event → Gather ρ
  | .start i => g.start i
  | .resume i => g.resume i
  | .finish i => g.finish body i
  | .cancel i => g.cancel cancelled i

/-- The calls in flight. -/
def inFlight (g : Gather ρ) : Nat := g.phases.countP Phase.isCalling

def rank (g : Gather ρ) : Nat := (g.phases.map Phase.rank).sum

/-- The results, once all tasks are settled. -/
def results (g : Gather ρ) : Option (List ρ) :=
  g.phases.mapM fun
    | .settled r => some r
    | .created | .waiting | .calling => none

/-- Every permit is free or with a call in flight, the queue holds the waiting tasks, and nobody
in it is forgotten. -/
structure Sound (permits : Nat) (g : Gather ρ) : Prop where
  conserved : g.semaphore.free + g.inFlight = permits
  queued : ∀ i, i ∈ g.semaphore.queue ↔ g.phases[i]? = some .waiting
  once : g.semaphore.queue.Nodup
  prompt : g.semaphore.Prompt

variable {body cancelled} {permits : Nat} {g : Gather ρ} {s : Semaphore} {i : Nat} {p q : Phase ρ}

/-! ## One task changes its phase -/

/-- The calls in flight change by the task that changes its phase. -/
theorem inFlight_put (hi : g.phases[i]? = some p) :
    (g.put s i q).inFlight + p.isCalling.toNat = g.inFlight + q.isCalling.toNat := by
  obtain ⟨hlt, rfl⟩ := List.getElem?_eq_some_iff.mp hi
  have hpos : g.phases[i].isCalling = true → 0 < g.phases.countP Phase.isCalling :=
    fun h => List.countP_pos_iff.mpr ⟨_, List.getElem_mem hlt, h⟩
  rw [inFlight, put, List.countP_set hlt]
  cases hp : g.phases[i].isCalling with
  | false => cases q.isCalling <;> simp [inFlight]
  | true =>
      have := hpos hp
      cases q.isCalling <;> simp [inFlight] <;> omega

/-- Setting a phase changes the sum of the ranks by the difference of the two. -/
theorem sum_rank_set {ps : List (Phase ρ)} (hi : ps[i]? = some p) :
    ((ps.set i q).map Phase.rank).sum + p.rank = (ps.map Phase.rank).sum + q.rank := by
  induction ps generalizing i with
  | nil => cases hi
  | cons x rest ih =>
      cases i with
      | zero =>
          obtain rfl := Option.some.inj hi
          simp only [List.set_cons_zero, List.map_cons, List.sum_cons]
          omega
      | succ j =>
          have hrest := ih hi
          simp only [List.set_cons_succ, List.map_cons, List.sum_cons]
          omega

/-- Setting the phase of one task leaves those of the others. -/
theorem getElem?_put (hi : g.phases[i]? = some p) (j : Nat) :
    (g.put s i q).phases[j]? = if j = i then some q else g.phases[j]? := by
  obtain ⟨hlt, -⟩ := List.getElem?_eq_some_iff.mp hi
  rw [put, List.getElem?_set]
  by_cases h : i = j
  · subst h
    simp [hlt]
  · rw [if_neg h, if_neg fun hji => h hji.symm]

/-- Leaving the queue and no longer waiting go together. -/
theorem queued_put (h : g.Sound permits) (hi : g.phases[i]? = some p) (hq : q ≠ .waiting)
    (hs : s.queue = g.semaphore.queue.filter (· ≠ i)) (j : Nat) :
    j ∈ s.queue ↔ (g.put s i q).phases[j]? = some .waiting := by
  rw [hs, getElem?_put hi, List.mem_filter, h.queued]
  by_cases hji : j = i
  · simp [hji, hq]
  · simp [hji]

/-- A task outside the queue changes its phase. -/
theorem queue_filter (h : g.Sound permits) (hi : g.phases[i]? = some p) (hp : p ≠ .waiting) :
    g.semaphore.queue.filter (· ≠ i) = g.semaphore.queue := by
  refine List.filter_eq_self.mpr fun j hj => decide_eq_true fun hji => hp ?_
  have hwaiting := (h.queued j).mp hj
  rw [hji, hi] at hwaiting
  exact Option.some.inj hwaiting

/-- No permit is lost when a task that changes its phase takes one along or gives one back. -/
theorem Sound.conserved_put (h : g.Sound permits) (hi : g.phases[i]? = some p)
    (hs : s.free + q.isCalling.toNat = g.semaphore.free + p.isCalling.toNat) :
    (g.put s i q).semaphore.free + (g.put s i q).inFlight = permits := by
  have hcount := inFlight_put (s := s) (q := q) hi
  have hconserved := h.conserved
  change s.free + (g.put s i q).inFlight = permits
  omega

/-! ## One step -/

/-- Whoever has been handed a permit waits. -/
theorem Sound.waits (h : g.Sound permits) {b : Bool} (hi : (i, b) ∈ g.semaphore.waiters) :
    g.phases[i]? = some .waiting :=
  (h.queued i).mp (List.mem_map.mpr ⟨_, hi, rfl⟩)

/-- A task that starts keeps the gather sound. -/
theorem Sound.start (h : g.Sound permits) : (g.start i).Sound permits := by
  unfold Gather.start
  split
  · next hi =>
      have hfresh := queue_filter h hi nofun
      split
      · next s hs =>
          obtain ⟨hfree, hqueue⟩ := Semaphore.acquire_true hs
          refine ⟨h.conserved_put hi hfree, queued_put h hi nofun (hqueue.trans hfresh.symm),
            hqueue ▸ h.once, ?_⟩
          have hprompt := Semaphore.prompt_acquire h.prompt i
          rwa [hs] at hprompt
      · next s hs =>
          obtain ⟨hfree, hqueue⟩ := Semaphore.acquire_false hs
          have hout : i ∉ g.semaphore.queue := by
            intro hmem
            rw [h.queued, hi] at hmem
            cases hmem
          refine ⟨h.conserved_put hi hfree, fun j => ?_, ?_, ?_⟩
          · change j ∈ s.queue ↔ _
            rw [hqueue, getElem?_put hi, List.mem_append, List.mem_singleton, h.queued]
            by_cases hji : j = i <;> simp [hji]
          · change s.queue.Nodup
            rw [hqueue]
            exact List.nodup_append'.mpr ⟨h.once, List.nodup_singleton i, by simpa using hout⟩
          · have hprompt := Semaphore.prompt_acquire h.prompt i
            rwa [hs] at hprompt
  · exact h

/-- A waiter who leaves the queue with the permit he was handed. -/
theorem Sound.resume (h : g.Sound permits) : (g.resume i).Sound permits := by
  unfold Gather.resume
  split
  · next hhanded =>
      have hi : (i, true) ∈ g.semaphore.waiters := of_decide_eq_true hhanded
      have hwaits := h.waits hi
      obtain ⟨hfree, hqueue⟩ := Semaphore.resume_spec h.once hi
      exact ⟨h.conserved_put hwaits hfree, queued_put h hwaits nofun hqueue,
        hqueue ▸ h.once.filter _, Semaphore.prompt_wakeUp _⟩
  · exact h

/-- A call that has ended gives its permit back. -/
theorem Sound.settle (h : g.Sound permits) (hi : g.phases[i]? = some .calling) (r : ρ) :
    (g.put g.semaphore.release i (.settled r)).Sound permits := by
  obtain ⟨hfree, hqueue⟩ := Semaphore.release_spec (s := g.semaphore)
  exact ⟨h.conserved_put hi hfree,
    queued_put h hi nofun (hqueue.trans (queue_filter h hi nofun).symm), hqueue ▸ h.once,
    Semaphore.prompt_release⟩

/-- A task that is cancelled keeps the gather sound. -/
theorem Sound.cancel (h : g.Sound permits) : (g.cancel cancelled i).Sound permits := by
  unfold Gather.cancel
  split
  · next hi =>
      exact ⟨h.conserved_put hi rfl, queued_put h hi nofun (queue_filter h hi nofun).symm,
        h.once, h.prompt⟩
  · next hi =>
      obtain ⟨w, hw, rfl⟩ := List.mem_map.mp ((h.queued i).mpr hi)
      obtain ⟨hfree, hqueue⟩ := Semaphore.cancel_spec h.once hw
      exact ⟨h.conserved_put hi hfree, queued_put h hi nofun hqueue, hqueue ▸ h.once.filter _,
        Semaphore.prompt_wakeUp _⟩
  · next hi => exact h.settle hi cancelled
  · exact h

/-- Every step keeps the gather sound. -/
theorem Sound.step (h : g.Sound permits) (e : Event) :
    (g.step body cancelled e).Sound permits := by
  cases e with
  | start i => exact h.start
  | resume i => exact h.resume
  | finish i =>
      change (g.finish body i).Sound permits
      unfold Gather.finish
      split
      · next hi => exact h.settle hi _
      · exact h
  | cancel i => exact h.cancel

/-- A gather is sound when it begins. -/
theorem sound_begin (permits tasks : Nat) : (begin permits tasks : Gather ρ).Sound permits where
  conserved := by
    simp [begin, inFlight, Phase.isCalling, List.countP_replicate]
  queued i := by
    simp only [begin, Semaphore.queue_new, List.not_mem_nil, false_iff]
    intro hi
    cases List.eq_of_mem_replicate (List.mem_of_getElem? hi)
  once := List.nodup_nil
  prompt _ hi := nomatch hi

/-! ## Whole runs -/

/-- A gather is sound after every run. -/
theorem sound_after (permits tasks : Nat) (run : List Event) :
    (after (step body cancelled) (begin permits tasks) run).Sound permits := by
  suffices h : ∀ g : Gather ρ, g.Sound permits → (after (step body cancelled) g run).Sound permits
    from h _ (sound_begin permits tasks)
  induction run with
  | nil => exact fun g hg => hg
  | cons e rest ih => exact fun g hg => ih _ (hg.step e)

/-- **No more calls in flight than permits**, at any time. -/
theorem inFlight_le (permits tasks : Nat) (run : List Event) :
    (after (step body cancelled) (begin permits tasks) run).inFlight ≤ permits := by
  have hconserved : _ + (after (step body cancelled) (begin permits tasks) run).inFlight = permits :=
    (sound_after permits tasks run).conserved
  omega

/-! ### Moves -/

theorem rank_put (hi : g.phases[i]? = some p) : (g.put s i q).rank + p.rank = g.rank + q.rank :=
  sum_rank_set hi

/-- **What a step can do**: nothing, or bring one task further; only the end of its own call or a
cancellation settles it. -/
theorem Sound.step_cases (h : g.Sound permits) (e : Event) :
    g.step body cancelled e = g ∨ ∃ s i p q, g.phases[i]? = some p ∧ p.rank < q.rank ∧
      g.step body cancelled e = g.put s i q ∧
        ∀ r, q = .settled r → r = body i ∨ r = cancelled ∧ e = .cancel i := by
  cases e with
  | start i =>
      simp only [Gather.step, Gather.start]
      split
      · next hi =>
          split
          · next s _ => exact .inr ⟨s, i, _, .calling, hi, Nat.succ_pos 1, rfl, nofun⟩
          · next s _ => exact .inr ⟨s, i, _, .waiting, hi, Nat.succ_pos 0, rfl, nofun⟩
      · exact .inl rfl
  | resume i =>
      simp only [Gather.step, Gather.resume]
      split
      · next hi =>
          exact .inr ⟨_, i, _, .calling, h.waits (of_decide_eq_true hi), Nat.lt_succ_self 1, rfl, nofun⟩
      · exact .inl rfl
  | finish i =>
      simp only [Gather.step, Gather.finish]
      split
      · next hi =>
          refine .inr ⟨_, i, _, .settled (body i), hi, Nat.lt_succ_self 2, rfl, fun r hr => .inl ?_⟩
          exact (Phase.settled.inj hr).symm
      · exact .inl rfl
  | cancel i =>
      have hsettled : ∀ r, Phase.settled cancelled = .settled r →
          r = body i ∨ r = cancelled ∧ Event.cancel i = .cancel i :=
        fun r hr => .inr ⟨(Phase.settled.inj hr).symm, rfl⟩
      simp only [Gather.step, Gather.cancel]
      split
      · next hi => exact .inr ⟨_, i, _, .settled cancelled, hi, Nat.succ_pos 2, rfl, hsettled⟩
      · next hi =>
          exact .inr ⟨_, i, _, .settled cancelled, hi, Nat.succ_lt_succ (Nat.succ_pos 1), rfl,
            hsettled⟩
      · next hi => exact .inr ⟨_, i, _, .settled cancelled, hi, Nat.lt_succ_self 2, rfl, hsettled⟩
      · exact .inl rfl

/-- Each task has three steps at most. -/
theorem rank_le (g : Gather ρ) : g.rank ≤ 3 * g.phases.length := by
  unfold rank
  induction g.phases with
  | nil => exact Nat.le_refl _
  | cons p rest ih =>
      have hp : p.rank ≤ 3 := by cases p <;> simp [Phase.rank]
      rw [List.map_cons, List.sum_cons, List.length_cons]
      omega

/-- A step leaves as many tasks as there were. -/
theorem Sound.length_step (h : g.Sound permits) (e : Event) :
    (g.step body cancelled e).phases.length = g.phases.length := by
  rcases h.step_cases e with hsame | ⟨s, i, p, q, -, -, hput, -⟩
  · rw [hsame]
  · rw [hput]
    exact List.length_set

/-- A run keeps the number of tasks. -/
theorem Sound.length_after (h : g.Sound permits) (run : List Event) :
    (after (Gather.step body cancelled) g run).phases.length = g.phases.length := by
  induction run generalizing g with
  | nil => rfl
  | cons e rest ih => exact (ih (h.step e)).trans (h.length_step e)

/-- **A run moves a task three times at most.** -/
theorem moves_le {permits tasks : Nat} {run : List Event}
    (hmoves : Along (step body cancelled) (fun g e => g.step body cancelled e ≠ g)
      (begin permits tasks) run) : run.length ≤ 3 * tasks := by
  have hclimbs : ∀ (run : List Event) (g : Gather ρ), g.Sound permits →
      Along (step body cancelled) (fun g e => g.step body cancelled e ≠ g) g run →
        g.rank + run.length ≤ (after (step body cancelled) g run).rank := by
    intro run
    induction run with
    | nil => exact fun g _ _ => Nat.le_refl _
    | cons e rest ih =>
        intro g hg hrun
        have hstep : g.rank < (g.step body cancelled e).rank := by
          rcases hg.step_cases e with hsame | ⟨s, i, p, q, hi, hlt, hput, -⟩
          · exact absurd hsame hrun.1
          · rw [hput]
            have := rank_put (s := s) (q := q) hi
            omega
        have hrest := ih _ (hg.step e) hrun.2
        rw [after_cons, List.length_cons]
        omega
  have hbound := rank_le (after (step body cancelled) (begin permits tasks : Gather ρ) run)
  rw [(sound_begin permits tasks).length_after, begin, List.length_replicate] at hbound
  have := hclimbs run _ (sound_begin permits tasks) hmoves
  simp only [begin] at this
  omega

/-! ### Results -/

/-- Nothing is left that could happen without somebody cancelling a task: no task is before the
semaphore, no call is in flight, and nobody has been handed a permit. -/
def Idle (g : Gather ρ) : Prop :=
  (∀ p ∈ g.phases, p.rank ≠ 0 ∧ p.isCalling = false) ∧ ∀ w ∈ g.semaphore.waiters, w.2 = false

instance (g : Gather ρ) : Decidable g.Idle := inferInstanceAs (Decidable (_ ∧ _))

/-- **Nobody is stuck**: with a permit at least, all tasks are settled when nothing can move. -/
theorem settled_of_idle (h : g.Sound permits) (hpermits : 0 < permits) (hidle : g.Idle) :
    ∃ rs, g.results = some rs := by
  obtain ⟨hmoved, hhanded⟩ := hidle
  have hwoken : g.semaphore.woken = 0 :=
    List.countP_eq_zero.mpr fun w hw => Bool.eq_false_iff.mp (hhanded w hw)
  have hnone : g.inFlight = 0 :=
    List.countP_eq_zero.mpr fun p hp => Bool.eq_false_iff.mp (hmoved p hp).2
  have hvalue : g.semaphore.value ≠ 0 := by
    have := h.conserved
    simp only [Semaphore.free] at this
    omega
  have hempty : ∀ i : Nat, g.phases[i]? ≠ some .waiting := by
    intro i hi
    obtain ⟨⟨j, b⟩, hw, rfl⟩ := List.mem_map.mp ((h.queued i).mpr hi)
    cases b with
    | true => cases hhanded _ hw
    | false =>
        rcases h.prompt _ hw with hzero | hpos
        · exact hvalue hzero
        · omega
  have hall : ∀ p ∈ g.phases, ∃ r, p = .settled r := by
    intro p hp
    obtain ⟨i, hi⟩ := List.mem_iff_getElem?.mp hp
    cases p with
    | created => exact absurd rfl (hmoved _ hp).1
    | waiting => exact absurd hi (hempty i)
    | calling => cases (hmoved _ hp).2
    | settled r => exact ⟨r, rfl⟩
  unfold results
  generalize g.phases = ps at hall
  induction ps with
  | nil => exact ⟨[], rfl⟩
  | cons p rest ih =>
      obtain ⟨r, rfl⟩ := hall p List.mem_cons_self
      obtain ⟨rs, hrs⟩ := ih fun q hq => hall q (List.mem_cons_of_mem _ hq)
      exact ⟨r :: rs, by simp [hrs]⟩

/-- **A task is settled with what its own call gave**, unless it was cancelled. -/
theorem settled_own {permits tasks : Nat} {run : List Event} {r : ρ}
    (hi : (after (step body cancelled) (begin permits tasks) run).phases[i]? =
      some (.settled r)) : r = body i ∨ r = cancelled ∧ .cancel i ∈ run := by
  have hkept : ∀ (run : List Event) (g : Gather ρ) (past : List Event), g.Sound permits →
      (∀ i r, g.phases[i]? = some (.settled r) → r = body i ∨ r = cancelled ∧ .cancel i ∈ past) →
        ∀ i r, (after (step body cancelled) g run).phases[i]? = some (.settled r) →
          r = body i ∨ r = cancelled ∧ .cancel i ∈ past ++ run := by
    intro run
    induction run with
    | nil => exact fun g past _ hg => by simpa using hg
    | cons e rest ih =>
        intro g past hsound hg
        rw [after_cons, List.append_cons]
        refine ih _ _ (hsound.step e) fun i r hi => ?_
        rcases hsound.step_cases e with hsame | ⟨s, j, p, q, hj, -, hput, hown⟩
        · rw [hsame] at hi
          exact (hg i r hi).imp_right fun h => ⟨h.1, List.mem_append_left _ h.2⟩
        · rw [hput, getElem?_put hj] at hi
          split at hi
          · next hij =>
              obtain rfl := hij
              refine (hown r (Option.some.inj hi)).imp_right fun h => ⟨h.1, ?_⟩
              exact List.mem_append_right _ (h.2 ▸ List.mem_cons_self)
          · exact (hg i r hi).imp_right fun h => ⟨h.1, List.mem_append_left _ h.2⟩
  have hnone : ∀ i r, (begin permits tasks : Gather ρ).phases[i]? = some (.settled r) →
      r = body i ∨ r = cancelled ∧ .cancel i ∈ ([] : List Event) := by
    intro i r hi
    cases List.eq_of_mem_replicate (List.mem_of_getElem? hi)
  exact hkept run _ [] (sound_begin permits tasks) hnone i r hi

/-- Results are those of the tasks, in their order. -/
theorem getElem?_results {rs : List ρ} (h : g.results = some rs) :
    rs.length = g.phases.length ∧ ∀ (i : Nat) r, rs[i]? = some r → g.phases[i]? = some (.settled r) := by
  unfold results at h
  generalize g.phases = ps at h ⊢
  induction ps generalizing rs with
  | nil =>
      obtain rfl := Option.some.inj h
      exact ⟨rfl, nofun⟩
  | cons p rest ih =>
      rw [List.mapM_cons] at h
      obtain ⟨r, hr, h⟩ := Option.bind_eq_some_iff.mp h
      obtain ⟨tail, htail, h⟩ := Option.bind_eq_some_iff.mp h
      obtain rfl := Option.some.inj h
      obtain ⟨hlength, hown⟩ := ih htail
      refine ⟨by simp [hlength], fun i x hi => ?_⟩
      cases i with
      | zero =>
          obtain rfl := Option.some.inj hi
          cases p with
          | settled y => exact congrArg (some ∘ Phase.settled) (Option.some.inj hr)
          | created | waiting | calling => cases hr
      | succ j => exact hown j x hi

/-- **The results are those of the calls, in the order of the tasks**, whatever the order in
which they ran. -/
theorem results_eq {permits tasks : Nat} {run : List Event} (hpermits : 0 < permits)
    (hrun : ∀ i, .cancel i ∉ run)
    (hidle : (after (step body cancelled) (begin permits tasks) run).Idle) :
    (after (step body cancelled) (begin permits tasks) run).results =
      some ((List.range tasks).map body) := by
  obtain ⟨rs, hrs⟩ := settled_of_idle (sound_after permits tasks run) hpermits hidle
  obtain ⟨hlength, hown⟩ := getElem?_results hrs
  rw [(sound_begin permits tasks).length_after, begin, List.length_replicate] at hlength
  rw [hrs]
  refine congrArg some (List.ext_getElem (by simpa using hlength) fun i hi _ => ?_)
  rw [List.getElem_map, List.getElem_range]
  rcases settled_own (hown i _ (List.getElem?_eq_getElem hi)) with hbody | hcancelled
  · exact hbody
  · exact absurd hcancelled.2 (hrun i)

end Gather

end BoundedGather
