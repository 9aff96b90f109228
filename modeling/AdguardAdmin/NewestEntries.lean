import Mathlib.Data.List.Count
import Mathlib.Data.List.Sort
import Mathlib.Order.Lattice
/-!
# The newest entries of several logs

From a list, keep `n` entries whose keys are greatest; which ones of equal keys are kept is left
open.

* `newest_take` — the first `n` of a list that is sorted downwards;
* `newest_pieces` — the `n` newest of all entries are among the `n` newest of each piece, so that
  it does not matter what each piece leaves out.
-/

namespace NewestEntries

variable {α κ : Type} [LinearOrder κ]

/-- The `n` entries with the greatest keys, up to ties. -/
structure Newest (key : α → κ) (n : Nat) (all kept : List α) : Prop where
  length : kept.length = min n all.length
  rest : ∃ rest, all.Perm (kept ++ rest) ∧ ∀ a ∈ kept, ∀ b ∈ rest, key b ≤ key a

/-- Sorted downwards, in the order given where keys are equal. -/
def descending (key : α → κ) (xs : List α) : List α := xs.mergeSort fun a b => key b ≤ key a

variable {key : α → κ} {n : Nat}

/-- The entries are sorted. -/
theorem pairwise_descending (xs : List α) :
    (descending key xs).Pairwise fun a b => key b ≤ key a := by
  have hsorted : (xs.mergeSort fun a b => decide (key b ≤ key a)).Pairwise
      fun a b => decide (key b ≤ key a) = true := by
    apply List.pairwise_mergeSort
    · intro a b c hab hbc
      simp only [decide_eq_true_eq] at hab hbc ⊢
      exact hbc.trans hab
    · intro a b
      simp only [Bool.or_eq_true, decide_eq_true_eq]
      exact le_total (key b) (key a)
  exact hsorted.imp of_decide_eq_true

theorem perm_descending (xs : List α) : (descending key xs).Perm xs := List.mergeSort_perm xs _

/-- **The first `n`** of a list that is sorted downwards are its newest. -/
theorem newest_take (xs : List α) : Newest key n xs ((descending key xs).take n) where
  length := by rw [List.length_take, (perm_descending xs).length_eq]
  rest := by
    refine ⟨(descending key xs).drop n, ?_, ?_⟩
    · rw [List.take_append_drop]
      exact (perm_descending xs).symm
    · have hsorted : (descending key xs).Pairwise fun a b => key b ≤ key a :=
        pairwise_descending xs
      rw [← List.take_append_drop n (descending key xs), List.pairwise_append] at hsorted
      exact hsorted.2.2

/-- What is kept is among what there is. -/
theorem Newest.subset {all kept : List α} (h : Newest key n all kept) : kept ⊆ all := by
  obtain ⟨rest, hperm, -⟩ := h.rest
  exact fun a ha => hperm.mem_iff.mpr (List.mem_append_left _ ha)

/-- The newest of mapped entries are the mapped newest. -/
theorem Newest.map {β : Type} {f : β → α} {all kept : List β}
    (h : Newest (fun b => key (f b)) n all kept) : Newest key n (all.map f) (kept.map f) := by
  obtain ⟨rest, hperm, hkeys⟩ := h.rest
  refine ⟨by simpa using h.length, rest.map f, ?_, ?_⟩
  · rw [← List.map_append]
    exact hperm.map f
  · intro a ha b hb
    obtain ⟨c, hc, rfl⟩ := List.mem_map.mp ha
    obtain ⟨d, hd, rfl⟩ := List.mem_map.mp hb
    exact hkeys c hc d hd

/-- The one newest entry is the one with the greatest key. -/
theorem Newest.one {all kept : List α} (h : Newest key 1 all kept) {b : α} (hb : b ∈ all)
    (hmost : ∀ a ∈ all, a ≠ b → key a < key b) : kept = [b] := by
  obtain ⟨rest, hperm, hkeys⟩ := h.rest
  have hpos := List.length_pos_of_mem hb
  have hlength : kept.length = 1 := by
    have hmin := h.length
    omega
  obtain ⟨c, rfl⟩ := List.length_eq_one_iff.mp hlength
  by_cases hc : c = b
  · rw [hc]
  · have hleft : b ∈ rest := by
      have hmem := hperm.mem_iff.mp hb
      rcases List.mem_cons.mp hmem with rfl | hmem
      · exact absurd rfl hc
      · exact hmem
    have hle := hkeys c List.mem_cons_self b hleft
    have hlt := hmost c (hperm.mem_iff.mpr List.mem_cons_self) hc
    exact absurd hle (not_le.mpr hlt)

/-- A change of entries that keeps the order of keys commutes with sorting. -/
theorem descending_map {β μ : Type} [LinearOrder μ] {key' : β → μ} {f : α → β} {xs : List α}
    (h : ∀ a ∈ xs, ∀ b ∈ xs, (key' (f b) ≤ key' (f a) ↔ key b ≤ key a)) :
    descending key' (xs.map f) = (descending key xs).map f := by
  rw [descending, descending]
  apply Eq.symm
  apply List.map_mergeSort
  intro a ha b hb
  exact decide_eq_decide.mpr (h a ha b hb).symm

/-- With the same order on keys, the same entries are newest. -/
theorem Newest.congr {μ : Type} [LinearOrder μ] {key' : α → μ} {all kept : List α}
    (h : Newest key n all kept)
    (horder : ∀ a ∈ all, ∀ b ∈ all, key b ≤ key a → key' b ≤ key' a) :
    Newest key' n all kept := by
  obtain ⟨rest, hperm, hkeys⟩ := h.rest
  refine ⟨h.length, rest, hperm, fun a ha b hb => ?_⟩
  have hin : ∀ c ∈ kept ++ rest, c ∈ all := fun c hc => hperm.mem_iff.mpr hc
  exact horder a (hin a (List.mem_append_left _ ha)) b (hin b (List.mem_append_right _ hb))
    (hkeys a ha b hb)

/-- What is left out of the newest of a list stands against `n` newer ones. -/
theorem Newest.full {all kept : List α} (h : Newest key n all kept) {rest : List α}
    (hperm : all.Perm (kept ++ rest)) (hne : rest ≠ []) : kept.length = n := by
  have hlength := h.length
  have htotal := hperm.length_eq
  rw [List.length_append] at htotal
  have hpos := List.length_pos_iff.mpr hne
  omega

/-- Each entry that some piece leaves out stands against `n` newer ones that are kept there. -/
theorem exists_left {pieces : List (List α × List α)}
    (h : ∀ p ∈ pieces, Newest key n p.1 p.2) :
    ∃ left, (pieces.flatMap Prod.fst).Perm (pieces.flatMap Prod.snd ++ left) ∧
      ∀ b ∈ left, ∃ newer : List α, newer.Sublist (pieces.flatMap Prod.snd) ∧ newer.length = n ∧
        ∀ a ∈ newer, key b ≤ key a := by
  induction pieces with
  | nil => exact ⟨[], List.Perm.refl _, fun b hb => nomatch hb⟩
  | cons p pieces ih =>
      obtain ⟨hp, hothers⟩ := List.forall_mem_cons.mp h
      obtain ⟨left, hleft, hnewer⟩ := ih hothers
      obtain ⟨rest, hperm, hkeys⟩ := hp.rest
      refine ⟨rest ++ left, ?_, fun b hb => ?_⟩
      · rw [List.flatMap_cons, List.flatMap_cons]
        have happend := hperm.append hleft
        rw [List.append_assoc] at happend ⊢
        exact happend.trans (List.Perm.append_left p.2 (List.perm_append_comm_assoc _ _ _))
      · rw [List.flatMap_cons]
        rcases List.mem_append.mp hb with hb | hb
        · exact ⟨p.2, List.sublist_append_left _ _, hp.full hperm (List.ne_nil_of_mem hb),
            fun a ha => hkeys a ha b hb⟩
        · obtain ⟨newer, hsub, hlength, hnew⟩ := hnewer b hb
          exact ⟨newer, hsub.trans (List.sublist_append_right _ _), hlength, hnew⟩

/-- **The newest of all** are the newest of what each piece keeps. -/
theorem newest_pieces {pieces : List (List α × List α)}
    (h : ∀ p ∈ pieces, Newest key n p.1 p.2) {kept : List α}
    (hkept : Newest key n (pieces.flatMap Prod.snd) kept) :
    Newest key n (pieces.flatMap Prod.fst) kept := by
  obtain ⟨left, hleft, hnewer⟩ := exists_left h
  obtain ⟨rest, hperm, hkeys⟩ := hkept.rest
  have hcount := hkept.length
  refine ⟨?_, rest ++ left, ?_, fun a ha b hb => ?_⟩
  · have htotal := hleft.length_eq
    rw [List.length_append] at htotal
    cases left with
    | nil =>
        rw [List.length_nil] at htotal
        omega
    | cons b left =>
        obtain ⟨newer, hsub, hlength, -⟩ := hnewer b List.mem_cons_self
        have hle := hsub.length_le
        omega
  · rw [← List.append_assoc]
    exact hleft.trans (hperm.append_right left)
  · rcases List.mem_append.mp hb with hb | hb
    · exact hkeys a ha b hb
    · by_contra hlt
      rw [not_le] at hlt
      obtain ⟨newer, hsub, hlength, hnew⟩ := hnewer b hb
      -- the `n` newer ones are newer than `a`, and so are among those that are kept, besides `a`
      have hall : newer.countP (fun c => key a < key c) = n := by
        rw [← hlength, List.countP_eq_length]
        intro c hc
        simpa using hlt.trans_le (hnew c hc)
      have hmost := hsub.countP_le (p := fun c => decide (key a < key c))
      rw [hall, hperm.countP_eq, List.countP_append] at hmost
      have hnone : rest.countP (fun c => key a < key c) = 0 := by
        rw [List.countP_eq_zero]
        intro c hc
        simpa using hkeys a ha c hc
      have hself : kept.countP (fun c => key a < key c) < kept.length := by
        rw [List.countP_lt_length_iff]
        exact ⟨a, ha, by simp⟩
      omega

end NewestEntries
