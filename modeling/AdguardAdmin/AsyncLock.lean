import Mathlib.Data.List.Basic
/-!
# Locks of an event loop

`asyncio.Lock`: a task that finds the lock free, and nobody who still waits for it, has
it at once, without giving way to another task; any other task joins a queue.  Releasing
wakes the first in the queue, which then takes the lock when it runs again.

A task that acquires only what it has just seen to be free never waits:
`acquire_of_idle` and `release_of_held` are the two rules for that.
-/

namespace AsyncLock

variable {τ : Type}

/-- What the future of a waiter says. -/
inductive Future where
  | pending
  | woken
  | cancelled
  deriving DecidableEq, Repr

structure Lock (τ : Type) where
  locked : Bool
  waiters : List (τ × Future)
  deriving DecidableEq, Repr

namespace Lock

def new : Lock τ := ⟨false, []⟩

/-- `acquire`, and whether the task has the lock without waiting. -/
def acquire (l : Lock τ) (i : τ) : Lock τ × Bool :=
  if l.locked = false ∧ ∀ w ∈ l.waiters, w.2 = .cancelled then ({ l with locked := true }, true)
  else ({ l with waiters := l.waiters ++ [(i, .pending)] }, false)

/-- `_wake_up_first`. -/
def wakeUpFirst (l : Lock τ) : Lock τ :=
  match l.waiters with
  | (i, .pending) :: rest => { l with waiters := (i, .woken) :: rest }
  | _ => l

/-- `release`, an error when the lock is not held. -/
def release (l : Lock τ) : Option (Lock τ) :=
  if l.locked = true then some (wakeUpFirst { l with locked := false }) else none

/-- What a waiter does when it runs again: it takes the lock if it was woken, and leaves
the queue if it is cancelled. -/
def resume [DecidableEq τ] (l : Lock τ) (i : τ) (cancelled : Bool) : Option (Lock τ × Bool) :=
  match l.waiters.find? fun w => w.1 = i with
  | none => none
  | some w =>
      let left := { l with waiters := l.waiters.erase w }
      if cancelled = true then some (if l.locked = true then left else left.wakeUpFirst, false)
      else if w.2 = .woken then some ({ left with locked := true }, true)
      else none

/-- Nobody has the lock and nobody waits for it. -/
def Idle (l : Lock τ) : Prop := l.locked = false ∧ l.waiters = []

/-- Somebody has the lock and nobody waits for it. -/
def Held (l : Lock τ) : Prop := l.locked = true ∧ l.waiters = []

/-- An idle lock is acquired at once. -/
theorem acquire_of_idle {l : Lock τ} (h : l.Idle) (i : τ) :
    ∃ l', l.acquire i = (l', true) ∧ l'.Held := by
  obtain ⟨hlocked, hwaiters⟩ := h
  refine ⟨{ l with locked := true }, ?_, rfl, hwaiters⟩
  simp [acquire, hlocked, hwaiters]

/-- A held lock is idle after its release. -/
theorem release_of_held {l : Lock τ} (h : l.Held) : ∃ l', l.release = some l' ∧ l'.Idle := by
  obtain ⟨hlocked, hwaiters⟩ := h
  refine ⟨wakeUpFirst { l with locked := false }, ?_, ?_⟩
  · simp [release, hlocked]
  · simp [wakeUpFirst, Idle, hwaiters]

end Lock

end AsyncLock
