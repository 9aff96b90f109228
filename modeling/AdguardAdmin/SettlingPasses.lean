import Mathlib.Logic.Basic
/-!
# Passes that settle a state

A pass does a list of jobs on a state.  When each job reaches its goal, undoes the goal of no
other, and does nothing where its goal is reached already, the pass as a whole `Settling`s the
state: afterwards every goal is reached, and the states it leaves alone are those where all of
them are.  Passes that settle compose when the later one keeps what the earlier one reached.
-/

namespace SettlingPasses

variable {σ α : Type}

/-- `f` brings every state to `Goal` and leaves alone the ones that are there. -/
structure Settling (f : σ → σ) (Goal : σ → Prop) : Prop where
  reaches : ∀ s, Goal (f s)
  rests : ∀ s, Goal s → f s = s

namespace Settling

variable {f g : σ → σ} {F G : σ → Prop}

/-- What is settled is left as it is, and nothing else. -/
theorem eq_self_iff (h : Settling f F) (s : σ) : f s = s ↔ F s := by
  constructor
  · intro heq
    have hgoal := h.reaches s
    rwa [heq] at hgoal
  · exact h.rests s

/-- Settling once is settling for good. -/
theorem idempotent (h : Settling f F) (s : σ) : f (f s) = f s := h.rests _ (h.reaches s)

/-- Two settling steps settle, if the second keeps what the first does. -/
theorem comp (hf : Settling f F) (hg : Settling g G) (hkept : ∀ s, F s → F (g s)) :
    Settling (fun s => g (f s)) fun s => F s ∧ G s where
  reaches s := ⟨hkept _ (hf.reaches s), hg.reaches _⟩
  rests s hs := by rw [hf.rests s hs.1, hg.rests s hs.2]

end Settling

/-- What `work` does for a job, and what it does to the goals of other jobs. -/
structure SettlesJobs (work : σ → α → σ) (Done : α → σ → Prop) : Prop where
  reaches : ∀ s a, Done a (work s a)
  keeps : ∀ s a b, Done b s → Done b (work s a)
  rests : ∀ s a, Done a s → work s a = s

variable {work : σ → α → σ} {Done : α → σ → Prop}

/-- What every job keeps, a list of jobs keeps. -/
theorem foldl_keeps {P : σ → Prop} (hkept : ∀ s a, P s → P (work s a)) {s : σ} (hs : P s)
    (jobs : List α) : P (jobs.foldl work s) := by
  induction jobs generalizing s with
  | nil => exact hs
  | cons a rest ih => exact ih (hkept s a hs)

/-- **Jobs make a pass.** -/
theorem SettlesJobs.settling (h : SettlesJobs work Done) (jobs : List α) :
    Settling (fun s => jobs.foldl work s) fun s => ∀ a ∈ jobs, Done a s := by
  induction jobs with
  | nil => exact ⟨fun s a ha => (List.not_mem_nil ha).elim, fun s _ => rfl⟩
  | cons a rest ih =>
      constructor
      · intro s
        rw [List.forall_mem_cons]
        exact ⟨foldl_keeps (fun t b => h.keeps t b a) (h.reaches s a) rest, ih.reaches (work s a)⟩
      · intro s hs
        rw [List.forall_mem_cons] at hs
        have hfirst : work s a = s := h.rests s a hs.1
        rw [List.foldl_cons, hfirst]
        exact ih.rests s hs.2

end SettlingPasses
