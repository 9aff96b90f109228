import Mathlib
/-!
# The rate limiter

`RateLimiter` counts failures under keys in a sliding window, and locks a key for a while once
there are too many of them.  A success clears its key.

Times are numbers of nanoseconds on a clock that does not go back.
-/

namespace AdguardAdmin.RateLimiter

def second : Int := 1000000000

/-- How many failures in how many seconds lock a key, and for how many seconds. -/
structure Limits where
  maxAttempts : Nat
  windowSeconds : Nat
  lockoutSeconds : Nat
  deriving DecidableEq, Repr

def Limits.window (limits : Limits) : Int := limits.windowSeconds * second

structure Limiter where
  /-- The times of failures, the oldest first. -/
  failures : String → List Int
  lockedUntil : String → Option Int

/-- A limiter that has seen nothing. -/
def idle : Limiter := ⟨fun _ => [], fun _ => none⟩

namespace Limiter

variable (limits : Limits) (l : Limiter) (now : Int) (key : String)

/-- Both entries of a key are dropped. -/
def forget : Limiter where
  failures := Function.update l.failures key []
  lockedUntil := Function.update l.lockedUntil key none

/-- The seconds to wait, or 0. -/
def retryAfter : Int × Limiter :=
  match l.lockedUntil key with
  | none => (0, l)
  | some deadline =>
      if deadline - now ≤ 0 then (0, l.forget key) else ((deadline - now) / second + 1, l)

/-- The failures with a new one, without the ones that have left the window. -/
def attempts : List Int :=
  (l.failures key ++ [now]).dropWhile fun t => t < now - limits.window

def recordFailure : Limiter :=
  if limits.maxAttempts ≤ (l.attempts limits now key).length then
    { failures := Function.update l.failures key []
      lockedUntil := Function.update l.lockedUntil key
        (some (now + limits.lockoutSeconds * second)) }
  else { l with failures := Function.update l.failures key (l.attempts limits now key) }

def recordSuccess : Limiter := l.forget key

/-- The key is locked. -/
def Locked : Prop := ∃ deadline, l.lockedUntil key = some deadline ∧ now < deadline

instance : Decidable (l.Locked now key) :=
  decidable_of_iff (∃ deadline ∈ l.lockedUntil key, now < deadline) Iff.rfl

/-- The failures of a key since a time. -/
def failuresSince (since : Int) : Nat := (l.failures key).countP fun t => since ≤ t

/-! ## What the operations do -/

variable {limits l now key}

/-- **The wait** covers what remains of a lockout. -/
theorem retryAfter_covers {deadline : Int} (h : l.lockedUntil key = some deadline) :
    deadline - now ≤ (l.retryAfter now key).1 * second := by
  rw [retryAfter, h]
  simp only
  split
  · next hover => simpa using hover
  · next hover =>
    rw [second]
    omega

/-- A key need not wait exactly when it is not locked. -/
theorem retryAfter_eq_zero_iff : (l.retryAfter now key).1 = 0 ↔ ¬ l.Locked now key := by
  rw [retryAfter, Locked]
  cases h : l.lockedUntil key with
  | none => simp
  | some deadline =>
      simp only [Option.some.injEq, exists_eq_left']
      split
      · next hover =>
        simp only [true_iff]
        omega
      · next hover =>
        rw [second]
        omega

@[simp] theorem forget_failures (key' : String) :
    (l.forget key).failures key' = if key' = key then [] else l.failures key' := by
  simp only [forget, Function.update_apply]

@[simp] theorem forget_lockedUntil (key' : String) :
    (l.forget key).lockedUntil key' = if key' = key then none else l.lockedUntil key' := by
  simp only [forget, Function.update_apply]

/-- Asking drops the entries of a lockout that is over. -/
theorem retryAfter_snd (h : ¬ l.Locked now key) :
    (l.retryAfter now key).2 = l ∧ l.lockedUntil key = none ∨
      (l.retryAfter now key).2 = l.forget key ∧ l.lockedUntil key ≠ none := by
  rw [retryAfter]
  cases hlocked : l.lockedUntil key with
  | none => exact .inl ⟨rfl, rfl⟩
  | some deadline =>
      have hover : deadline - now ≤ 0 := by
        by_contra hlater
        exact h ⟨deadline, hlocked, by omega⟩
      simp only
      rw [if_pos hover]
      exact .inr ⟨rfl, Option.some_ne_none deadline⟩

/-- Asking about a locked key changes nothing. -/
theorem retryAfter_snd_of_locked (h : l.Locked now key) : (l.retryAfter now key).2 = l := by
  obtain ⟨deadline, hlocked, hlater⟩ := h
  rw [retryAfter, hlocked]
  simp only
  rw [if_neg (by omega)]

/-- Attempts are kept in their order. -/
theorem attempts_sorted (hsorted : (l.failures key).Pairwise (· ≤ ·))
    (hpast : ∀ t ∈ l.failures key, t ≤ now) :
    (l.attempts limits now key).Pairwise (· ≤ ·) := by
  apply List.Pairwise.sublist (List.dropWhile_sublist _)
  rw [List.pairwise_append]
  refine ⟨hsorted, List.pairwise_singleton _ _, fun t ht u hu => ?_⟩
  rw [List.mem_singleton.mp hu]
  exact hpast t ht

/-- The attempts of a key are in the past. -/
theorem attempts_past (hpast : ∀ t ∈ l.failures key, t ≤ now) :
    ∀ t ∈ l.attempts limits now key, t ≤ now := by
  intro t ht
  rcases List.mem_append.mp ((List.dropWhile_sublist _).subset ht) with ht | ht
  · exact hpast t ht
  · exact Int.le_of_eq (List.mem_singleton.mp ht)

/-- In order, what has left the window is all that is dropped. -/
theorem attempts_eq (hsorted : (l.failures key).Pairwise (· ≤ ·))
    (hpast : ∀ t ∈ l.failures key, t ≤ now) :
    l.attempts limits now key =
      ((l.failures key ++ [now]).filter fun t => now - limits.window ≤ t) := by
  have hall : (l.failures key ++ [now]).Pairwise (· ≤ ·) := by
    rw [List.pairwise_append]
    refine ⟨hsorted, List.pairwise_singleton _ _, fun t ht u hu => ?_⟩
    rw [List.mem_singleton.mp hu]
    exact hpast t ht
  rw [attempts]
  generalize l.failures key ++ [now] = ts at hall
  induction ts with
  | nil => rfl
  | cons t ts ih =>
      obtain ⟨hfirst, hrest⟩ := List.pairwise_cons.mp hall
      by_cases ht : t < now - limits.window
      · have hold : ¬ decide (now - limits.window ≤ t) = true := by
          rw [decide_eq_true_eq]
          omega
        rw [List.dropWhile_cons_of_pos (by exact decide_eq_true ht), ih hrest,
          List.filter_cons_of_neg (by exact hold)]
      · have hrecent : ¬ decide (t < now - limits.window) = true := by
          rw [decide_eq_true_eq]
          exact ht
        rw [List.dropWhile_cons_of_neg (by exact hrecent), Eq.comm, List.filter_eq_self]
        intro u hu
        rcases List.mem_cons.mp hu with rfl | hu
        · exact decide_eq_true (Int.not_lt.mp ht)
        · have hle := hfirst u hu
          simp only [decide_eq_true_eq]
          omega

/-- A new failure is one more on record, also in later parts of the window. -/
theorem attempts_countP (limits : Limits) (hsorted : (l.failures key).Pairwise (· ≤ ·))
    (hpast : ∀ t ∈ l.failures key, t ≤ now) {since : Int} (hsince : now - limits.window ≤ since) :
    ((l.attempts limits now key).countP fun t => since ≤ t) =
      l.failuresSince key since + if since ≤ now then 1 else 0 := by
  rw [attempts_eq hsorted hpast, List.countP_filter, List.countP_append, failuresSince]
  have hin : ∀ t, (decide (since ≤ t) && decide (now - limits.window ≤ t)) =
      decide (since ≤ t) := by
    intro t
    rw [← Bool.decide_and, decide_eq_decide]
    omega
  simp only [hin, List.countP_singleton, decide_eq_true_eq]

/-- The attempts of a key are its failures within the window and one more. -/
theorem attempts_length (limits : Limits) (hsorted : (l.failures key).Pairwise (· ≤ ·))
    (hpast : ∀ t ∈ l.failures key, t ≤ now) :
    (l.attempts limits now key).length =
      l.failuresSince key (now - limits.window) + 1 := by
  have hcount : ((l.attempts limits now key).countP fun t => now - limits.window ≤ t) = _ :=
    attempts_countP limits hsorted hpast (Int.le_refl _)
  have hwindow : now - limits.window ≤ now := by
    rw [Limits.window, second]
    omega
  rw [if_pos hwindow] at hcount
  rw [← hcount, eq_comm, List.countP_eq_length, attempts_eq hsorted hpast]
  intro t ht
  exact (List.mem_filter.mp ht).2

/-- A longer window has no fewer failures. -/
theorem failuresSince_anti {since since' : Int} (h : since ≤ since') :
    l.failuresSince key since' ≤ l.failuresSince key since := by
  rw [failuresSince, failuresSince]
  apply List.countP_mono_left
  intro t _ ht
  simp only [decide_eq_true_eq] at ht ⊢
  exact Int.le_trans h ht

end Limiter

end AdguardAdmin.RateLimiter
