import Mathlib.Data.List.Infix
/-!
# Counting in a sliding window

A log of things that happen, the newest first.  Some of them count, and some of them stop the
counting.  In a log that is `Bounded`, no stretch of it that fits into a window and is not
stopped in between counts more than a number of times.

* `bounded_cons` — it stays bounded if what counts in the window that ends with the newest thing,
  since the counting was last stopped, is not too much.
-/

namespace WindowCount

variable {α : Type} (time : α → Int) (counts stops : α → Bool) (window : Int) (most : Nat)

def Bounded (log : List α) : Prop :=
  ∀ stretch, stretch <:+: log → (∀ a ∈ stretch, stops a = false) →
    (∀ a ∈ stretch, ∀ b ∈ stretch, time a ≤ time b + window) →
      stretch.countP counts ≤ most

/-- What has happened since the counting was stopped. -/
def sinceStop (log : List α) : List α := log.takeWhile fun a => !stops a

/-- How often something counted since a time and since the counting was stopped. -/
def countSince (since : Int) (log : List α) : Nat :=
  (sinceStop stops log).countP fun a => counts a && decide (since ≤ time a)

variable {time counts stops window most} {log : List α} {a : α} {since : Int}

@[simp] theorem countSince_nil : countSince time counts stops since ([] : List α) = 0 := rfl

theorem countSince_stop (h : stops a = true) :
    countSince time counts stops since (a :: log) = 0 := by
  simp [countSince, sinceStop, h]

theorem countSince_skip (hstop : stops a = false) (hcount : counts a = false) :
    countSince time counts stops since (a :: log) = countSince time counts stops since log := by
  simp [countSince, sinceStop, hstop, hcount]

/-- An entry that counts adds one. -/
theorem countSince_count (hstop : stops a = false) (hcount : counts a = true)
    (htime : since ≤ time a) :
    countSince time counts stops since (a :: log) =
      countSince time counts stops since log + 1 := by
  simp [countSince, sinceStop, hstop, hcount, htime]

/-- Nothing is counted since a time after all entries. -/
theorem countSince_eq_zero (h : ∀ a ∈ log, time a < since) :
    countSince time counts stops since log = 0 := by
  rw [countSince, List.countP_eq_zero]
  intro b hb
  have hbefore := h b ((List.takeWhile_sublist _).subset hb)
  simp only [Bool.and_eq_true, decide_eq_true_eq, not_and]
  omega

/-- An empty log is bounded. -/
theorem bounded_nil : Bounded time counts stops window most ([] : List α) := by
  intro stretch hin _ _
  rw [List.infix_nil.mp hin]
  exact Nat.zero_le _

/-- A stretch without a stop at the start of a log is within what has happened since. -/
theorem isPrefix_sinceStop {stretch : List α} (hin : stretch <+: log)
    (hstops : ∀ b ∈ stretch, stops b = false) : stretch <+: sinceStop stops log := by
  obtain ⟨rest, rfl⟩ := hin
  rw [sinceStop, List.takeWhile_append_of_pos (by simpa using hstops)]
  exact List.prefix_append _ _

/-- A log stays bounded when its new entry keeps the count. -/
theorem bounded_cons (h : Bounded time counts stops window most log)
    (hnew : counts a = true → stops a = false →
      countSince time counts stops (time a - window) (a :: log) ≤ most) :
    Bounded time counts stops window most (a :: log) := by
  intro stretch hin hstops hspan
  rcases List.infix_cons_iff.mp hin with hfirst | hlater
  · cases stretch with
    | nil => exact Nat.zero_le _
    | cons b stretch =>
        obtain ⟨rfl, hrest⟩ := List.cons_prefix_cons.mp hfirst
        cases hcounts : counts b with
        | false =>
            rw [List.countP_cons_of_neg (by simp [hcounts])]
            exact h stretch hrest.isInfix (fun c hc => hstops c (List.mem_cons_of_mem _ hc))
              fun c hc d hd => hspan c (List.mem_cons_of_mem _ hc) d (List.mem_cons_of_mem _ hd)
        | true =>
            -- all of the stretch is in the window that ends with its newest thing
            have hwithin : (b :: stretch).countP counts =
                (b :: stretch).countP fun c => counts c && decide (time b - window ≤ time c) := by
              apply List.countP_congr
              intro c hc
              have hlate : time b - window ≤ time c := by
                have hspread := hspan b List.mem_cons_self c hc
                omega
              simp [hlate]
            have hle := (isPrefix_sinceStop hfirst hstops).sublist.countP_le
              (p := fun c => counts c && decide (time b - window ≤ time c))
            rw [hwithin]
            exact hle.trans (hnew hcounts (hstops b List.mem_cons_self))
  · exact h stretch hlater hstops hspan

end WindowCount
