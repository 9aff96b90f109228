import Mathlib.Data.List.Chain
import Mathlib.Data.List.Range
import Mathlib.Tactic.Ring
/-!
# A grid of steps

Time is cut into steps of equal length, the first of which begins at zero.  The points of a
chart are the beginnings of successive steps.

* `mem_range_iff` — the numbers of a `range` whose bounds lie on the grid;
* `chain_range` — they follow each other at equal distances.
-/

namespace StepGrid

/-- The numbers from `first` to below `stop`, in distances of `step`. -/
def range (first stop step : Int) : List Int :=
  (List.range ((stop - first + step - 1) / step).toNat).map fun (i : Nat) => first + i * step

/-- The number of the step that a time falls into. -/
def stepOf (step t : Int) : Int := t / step

variable {step : Int}

/-- A step contains the times from its beginning on until the next one begins. -/
theorem stepOf_eq_iff (hstep : 0 < step) {t k : Int} :
    stepOf step t = k ↔ k * step ≤ t ∧ t < (k + 1) * step := by
  rw [stepOf, ← Int.le_ediv_iff_mul_le hstep, ← Int.ediv_lt_iff_lt_mul hstep]
  omega

theorem stepOf_mono (hstep : 0 < step) {t u : Int} (h : t ≤ u) : stepOf step t ≤ stepOf step u :=
  Int.ediv_le_ediv hstep h

/-- A time at or after the beginning of a step is in that step or in a later one. -/
theorem le_stepOf_iff (hstep : 0 < step) {t k : Int} : k ≤ stepOf step t ↔ k * step ≤ t :=
  Int.le_ediv_iff_mul_le hstep

/-- A range has each step between its ends. -/
theorem mem_range_iff (hstep : 0 < step) {first last k : Int} :
    k * step ∈ range (first * step) (last * step + 1) step ↔ first ≤ k ∧ k ≤ last := by
  have hcount : (last * step + 1 - first * step + step - 1) / step = last - first + 1 := by
    have hsum : last * step + 1 - first * step + step - 1 = (last - first + 1) * step := by ring
    rw [hsum, Int.mul_ediv_cancel _ (ne_of_gt hstep)]
  rw [range, hcount, List.mem_map]
  constructor
  · rintro ⟨i, hi, heq⟩
    have hk : k = first + i := by
      apply Int.eq_of_mul_eq_mul_right (ne_of_gt hstep)
      rw [← heq]
      ring
    have hlt := List.mem_range.mp hi
    omega
  · rintro ⟨hfirst, hlast⟩
    refine ⟨(k - first).toNat, List.mem_range.mpr (by omega), ?_⟩
    rw [Int.toNat_of_nonneg (by omega)]
    ring

/-- The numbers lie on the grid. -/
theorem exists_of_mem_range {first stop b : Int} (h : b ∈ range (first * step) stop step) :
    ∃ k, b = k * step := by
  obtain ⟨i, -, rfl⟩ := List.mem_map.mp h
  exact ⟨first + i, by ring⟩

/-- The members of a range lie at equal distances. -/
theorem chain_range (first stop step : Int) :
    (range first stop step).IsChain fun a b => b = a + step := by
  rw [range, List.isChain_map, List.isChain_range]
  intro i _
  push_cast
  ring

/-- A range begins with its first multiple. -/
theorem head?_range (hstep : 0 < step) {first last : Int} (h : first ≤ last) :
    (range (first * step) (last * step + 1) step).head? = some (first * step) := by
  have hmem : first * step ∈ range (first * step) (last * step + 1) step :=
    (mem_range_iff hstep).mpr ⟨le_refl first, h⟩
  rw [range] at hmem ⊢
  cases hcount : ((last * step + 1 - first * step + step - 1) / step).toNat with
  | zero =>
      rw [hcount] at hmem
      exact nomatch hmem
  | succ n =>
      rw [List.range_succ_eq_map, List.map_cons, List.head?_cons]
      simp

end StepGrid
