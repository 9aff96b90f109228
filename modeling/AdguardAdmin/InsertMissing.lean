import Mathlib.Data.List.Infix
/-!
# Inserting what is missing

A table is gone through once for each item of a list, and a row is made for the items that
no row stands for yet.  Later items see the rows that earlier ones have made.
-/

namespace InsertMissing

variable {ρ ι : Type}

section

variable (same : ρ → ι → Bool) (make : ι → ρ)

/-- One item; `same` says which rows stand for it. -/
def insertMissing (rows : List ρ) (item : ι) : List ρ :=
  if rows.any (same · item) then rows else rows ++ [make item]

def insertAll (rows : List ρ) (items : List ι) : List ρ :=
  items.foldl (insertMissing same make) rows

end

variable {same : ρ → ι → Bool} {make : ι → ρ} {rows : List ρ} {items : List ι}

/-- What was there stays in front. -/
theorem prefix_insertMissing (rows : List ρ) (item : ι) :
    rows <+: insertMissing same make rows item := by
  unfold insertMissing
  split
  · exact List.prefix_rfl
  · exact List.prefix_append _ _

/-- The rows that were there stay as they are. -/
theorem prefix_insertAll (rows : List ρ) (items : List ι) :
    rows <+: insertAll same make rows items := by
  induction items generalizing rows with
  | nil => exact List.prefix_rfl
  | cons item rest ih => exact (prefix_insertMissing rows item).trans (ih _)

/-- Afterwards each item has a row that stands for it. -/
theorem exists_same (hmake : ∀ item ∈ items, same (make item) item = true) :
    ∀ item ∈ items, ∃ row ∈ insertAll same make rows items, same row item = true := by
  induction items generalizing rows with
  | nil => simp
  | cons first rest ih =>
      rw [List.forall_mem_cons] at hmake
      rw [List.forall_mem_cons]
      refine ⟨?_, ih hmake.2⟩
      have hinserted : ∃ row ∈ insertMissing same make rows first, same row first = true := by
        unfold insertMissing
        split
        · next hfound => simpa using hfound
        · exact ⟨make first, by simp, hmake.1⟩
      obtain ⟨row, hrow, hsame⟩ := hinserted
      exact ⟨row, (prefix_insertAll _ rest).subset hrow, hsame⟩

/-- A row was there, or has been made for an item. -/
theorem mem_insertAll {row : ρ} (h : row ∈ insertAll same make rows items) :
    row ∈ rows ∨ ∃ item ∈ items, row = make item := by
  induction items generalizing rows with
  | nil => exact .inl h
  | cons first rest ih =>
      rcases ih h with hearlier | ⟨item, hitem, rfl⟩
      · unfold insertMissing at hearlier
        split at hearlier
        · exact .inl hearlier
        · rcases List.mem_append.mp hearlier with hrow | hnew
          · exact .inl hrow
          · exact .inr ⟨first, List.mem_cons_self, List.mem_singleton.mp hnew⟩
      · exact .inr ⟨item, List.mem_cons_of_mem _ hitem, rfl⟩

/-- Where every item has its row, nothing is inserted. -/
theorem insertAll_eq_self (h : ∀ item ∈ items, ∃ row ∈ rows, same row item = true) :
    insertAll same make rows items = rows := by
  induction items with
  | nil => rfl
  | cons first rest ih =>
      rw [List.forall_mem_cons] at h
      have hfound : rows.any (same · first) = true := by
        simpa using h.1
      have hfirst : insertMissing same make rows first = rows := by
        rw [insertMissing, if_pos hfound]
      rw [insertAll, List.foldl_cons, hfirst]
      exact ih h.2

/-- Inserting the same items again adds nothing, whatever has been added since. -/
theorem insertAll_again (hmake : ∀ item ∈ items, same (make item) item = true) {later : List ρ}
    (hlater : insertAll same make rows items <+: later) :
    insertAll same make later items = later :=
  insertAll_eq_self fun item hitem =>
    let ⟨row, hrow, hsame⟩ := exists_same hmake item hitem
    ⟨row, hlater.subset hrow, hsame⟩

end InsertMissing
