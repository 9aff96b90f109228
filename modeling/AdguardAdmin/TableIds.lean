import Mathlib.Algebra.Order.Ring.Int
import Mathlib.Algebra.Order.Ring.Nat
import Mathlib.Data.List.Nodup
/-!
# Row ids

The ids a table hands out when they are not kept from being used again: one more
than the highest in use, so the id of a deleted highest row comes back.
-/

namespace TableIds

variable {α ρ : Type}

/-- Editing rows without touching their keys keeps the keys distinct. -/
theorem nodup_map_edit {key : ρ → α} {rows : List ρ} (h : (rows.map key).Nodup) {edit : ρ → ρ}
    (hedit : ∀ row, key (edit row) = key row) : ((rows.map edit).map key).Nodup := by
  rwa [List.map_map, show key ∘ edit = key from funext hedit]

theorem nodup_filter {key : ρ → α} {rows : List ρ} (h : (rows.map key).Nodup) (keep : ρ → Bool) :
    ((rows.filter keep).map key).Nodup :=
  h.sublist (List.filter_sublist.map key)

section Put

variable [DecidableEq α]

/-- A row is what its key finds. -/
theorem find?_key {key : ρ → α} {rows : List ρ} (h : (rows.map key).Nodup) {row : ρ}
    (hrow : row ∈ rows) : rows.find? (key · = key row) = some row := by
  cases hfind : rows.find? (key · = key row) with
  | none =>
      have hnone := List.find?_eq_none.mp hfind row hrow
      simp at hnone
  | some found =>
      have hkey : key found = key row := by simpa using List.find?_some hfind
      have hmem := List.mem_of_find?_eq_some hfind
      rw [List.inj_on_of_nodup_map h hmem hrow hkey]

/-- Put a row in the place of the one with its key. -/
def putRow (key : ρ → α) (new : ρ) (rows : List ρ) : List ρ :=
  rows.map fun row => if key row = key new then new else row

/-- A row that is put keeps the keys. -/
theorem map_key_putRow (key : ρ → α) (new : ρ) (rows : List ρ) :
    (putRow key new rows).map key = rows.map key := by
  rw [putRow, List.map_map]
  refine List.map_congr_left fun row _ => ?_
  by_cases h : key row = key new <;> simp [h]

theorem nodup_putRow {key : ρ → α} {rows : List ρ} (h : (rows.map key).Nodup) (new : ρ) :
    ((putRow key new rows).map key).Nodup := by
  rwa [map_key_putRow]

/-- What is in the table afterwards, when the key was in use. -/
theorem mem_putRow {key : ρ → α} {new row : ρ} {rows : List ρ} (h : key new ∈ rows.map key) :
    row ∈ putRow key new rows ↔ row = new ∨ (row ∈ rows ∧ key row ≠ key new) := by
  unfold putRow
  rw [List.mem_map]
  constructor
  · rintro ⟨old, hold, rfl⟩
    by_cases hkey : key old = key new
    · exact .inl (if_pos hkey)
    · rw [if_neg hkey]
      exact .inr ⟨hold, hkey⟩
  · rintro (rfl | ⟨hrow, hkey⟩)
    · obtain ⟨old, hold, hkey⟩ := List.mem_map.mp h
      exact ⟨old, hold, if_pos hkey⟩
    · exact ⟨row, hrow, if_neg hkey⟩

end Put

variable [LinearOrder α]

def nextId [Zero α] [One α] [Add α] (ids : List α) : α := ids.max?.getD 0 + 1

variable [Semiring α] [IsStrictOrderedRing α]

/-- The next id is new. -/
theorem nextId_not_mem (ids : List α) : nextId ids ∉ ids := by
  intro hmem
  cases hmax : ids.max? with
  | none =>
      rw [List.max?_eq_none_iff.mp hmax] at hmem
      cases hmem
  | some top =>
      have hle := (List.max?_eq_some_iff.mp hmax).2 _ hmem
      rw [nextId, hmax, Option.getD_some] at hle
      exact absurd hle (not_le.mpr (lt_add_one top))

/-- Adding a row under the next id keeps the keys distinct. -/
theorem nodup_append_nextId {key : ρ → α} {rows : List ρ} (h : (rows.map key).Nodup) {row : ρ}
    (hrow : key row = nextId (rows.map key)) : ((rows ++ [row]).map key).Nodup := by
  rw [List.map_append, List.map_singleton]
  refine List.Nodup.append h (List.nodup_singleton _) ?_
  rintro id hid hnew
  obtain rfl := List.mem_singleton.mp hnew
  rw [hrow] at hid
  exact nextId_not_mem _ hid

/-- The ids stay distinct when a row with the next id is added, or none. -/
theorem nodup_append_toList {key : ρ → α} {rows : List ρ} (h : (rows.map key).Nodup)
    {row : Option ρ} (hrow : ∀ r ∈ row, key r = nextId (rows.map key)) :
    ((rows ++ row.toList).map key).Nodup := by
  cases row with
  | none => simpa using h
  | some r => exact nodup_append_nextId h (hrow r rfl)

end TableIds
