import Mathlib.Data.List.Perm.Basic
import Mathlib.Logic.Function.Basic
import Mathlib.Data.List.Nodup
/-!
# Documents merged visit by visit

Each member keeps a document of entries, at most one under the key of a source.  A
visit of a source goes over its targets and puts an entry under the key of the source
into the document of each.  Visits add and replace entries; no visit removes one.

* `mem_keys_visit` — what a visit lists;
* `mem_keys_pass` — a pass over sources lists what was listed before it and the sources
  that have the member among their targets;
* `right_after_pass_iff` — so a pass over all sources leaves every document right
  exactly when no document listed anything outdated before it.
-/

namespace MergedViews

variable {E ι : Type} [DecidableEq ι] (key : E → ι)

/-- Put an entry at the end, in the place of the one under its key. -/
def put (e : E) (doc : List E) : List E := doc.filter (key · ≠ key e) ++ [e]

variable {key}

/-- A key is there when it was, or was put. -/
theorem mem_keys_put {e : E} {doc : List E} {k : ι} :
    k ∈ (put key e doc).map key ↔ k ∈ doc.map key ∨ k = key e := by
  rw [put, List.map_append, List.mem_append, List.map_singleton, List.mem_singleton]
  constructor
  · rintro (hold | hnew)
    · obtain ⟨old, hmem, rfl⟩ := List.mem_map.mp hold
      exact .inl (List.mem_map_of_mem (List.mem_filter.mp hmem).1)
    · exact .inr hnew
  · rintro (hold | hnew)
    · by_cases hk : k = key e
      · exact .inr hk
      · obtain ⟨old, hmem, rfl⟩ := List.mem_map.mp hold
        exact .inl (List.mem_map_of_mem (List.mem_filter.mpr ⟨hmem, decide_eq_true hk⟩))
    · exact .inr hnew

/-- Keys stay distinct. -/
theorem nodup_put {doc : List E} (h : (doc.map key).Nodup) (e : E) :
    ((put key e doc).map key).Nodup := by
  rw [put, List.map_append, List.map_singleton]
  refine List.Nodup.append (h.sublist (List.filter_sublist.map key)) (List.nodup_singleton _) ?_
  intro k hold hnew
  obtain ⟨old, hmem, rfl⟩ := List.mem_map.mp hold
  have hne : key old ≠ key e := of_decide_eq_true (List.mem_filter.mp hmem).2
  exact hne (List.mem_singleton.mp hnew)

/-! ## Visits -/

section Visits

/-- A document shows its entries, and an entry can be merged into it. -/
structure Merging (E ι D : Type) [DecidableEq ι] where
  key : E → ι
  entries : D → List E
  merge : D → E → D
  entries_merge : ∀ d e, entries (merge d e) = put key e (entries d)

variable {D κ τ : Type} [DecidableEq κ] (M : Merging E ι D)

/-- The keys a document lists. -/
def Merging.keys (d : D) : List ι := (M.entries d).map M.key

/-- The keys of a document after a merge. -/
theorem Merging.mem_keys_merge {d : D} {e : E} {k : ι} :
    k ∈ M.keys (M.merge d e) ↔ k ∈ M.keys d ∨ k = M.key e := by
  rw [keys, M.entries_merge]
  exact mem_keys_put

theorem Merging.nodup_keys_merge {d : D} (h : (M.keys d).Nodup) (e : E) :
    (M.keys (M.merge d e)).Nodup := by
  rw [keys, M.entries_merge]
  exact nodup_put h e

/-- Merge the entry of each target into the document of its member. -/
def visit (member : τ → κ) (entry : τ → E) (targets : List τ) (docs : κ → D) : κ → D :=
  targets.foldl
    (fun docs t => Function.update docs (member t) (M.merge (docs (member t)) (entry t))) docs

variable {member : τ → κ} {entry : τ → E}

/-- What merging keeps in a document, a visit keeps in all. -/
theorem visit_keeps {P : D → Prop} (hmerge : ∀ d e, P d → P (M.merge d e)) {targets : List τ}
    {docs : κ → D} (h : ∀ m, P (docs m)) : ∀ m, P (visit M member entry targets docs m) := by
  induction targets generalizing docs with
  | nil => exact h
  | cons t rest ih =>
      apply ih
      intro m
      dsimp only
      by_cases hm : m = member t
      · rw [hm, Function.update_self]
        exact hmerge _ _ (h _)
      · rw [Function.update_of_ne hm]
        exact h m

/-- **What a visit lists**: what was listed, and its source with the members among its
targets. -/
theorem mem_keys_visit {k : ι} {targets : List τ} (hkey : ∀ t ∈ targets, M.key (entry t) = k)
    (docs : κ → D) {m : κ} {j : ι} :
    j ∈ M.keys (visit M member entry targets docs m) ↔
      j ∈ M.keys (docs m) ∨ (j = k ∧ m ∈ targets.map member) := by
  induction targets generalizing docs with
  | nil => simp [visit]
  | cons t rest ih =>
      have hrest := ih (fun t ht => hkey t (List.mem_cons_of_mem _ ht))
        (Function.update docs (member t) (M.merge (docs (member t)) (entry t)))
      have hthis : M.key (entry t) = k := hkey t List.mem_cons_self
      rw [visit, List.foldl_cons, ← visit, hrest, List.map_cons, List.mem_cons]
      by_cases hm : m = member t
      · rw [hm, Function.update_self, M.mem_keys_merge, hthis]
        tauto
      · rw [Function.update_of_ne hm]
        tauto

end Visits

/-! ## Passes -/

section Passes

variable {D κ : Type} (M : Merging E ι D) (pool : ι → κ → Prop)

/-- A visit of `k` lists it with the members of its pool and changes no other listing. -/
def Visits (k : ι) (f : (κ → D) → κ → D) : Prop :=
  ∀ docs m j, j ∈ M.keys (f docs m) ↔ j ∈ M.keys (docs m) ∨ (j = k ∧ pool k m)

variable {M pool} {f : (κ → D) → ι → κ → D}

/-- The keys of a document after a pass. -/
theorem mem_keys_pass {order : List ι} (hvisits : ∀ k ∈ order, Visits M pool k (f · k))
    (docs : κ → D) {m : κ} {j : ι} :
    j ∈ M.keys (order.foldl f docs m) ↔ j ∈ M.keys (docs m) ∨ (j ∈ order ∧ pool j m) := by
  induction order generalizing docs with
  | nil => simp
  | cons k rest ih =>
      have hrest := ih (fun k hk => hvisits k (List.mem_cons_of_mem _ hk)) (f docs k)
      have hthis := hvisits k List.mem_cons_self docs m j
      rw [List.foldl_cons, hrest, hthis, List.mem_cons]
      constructor
      · rintro ((hold | ⟨rfl, hpool⟩) | ⟨hj, hpool⟩)
        · exact .inl hold
        · exact .inr ⟨.inl rfl, hpool⟩
        · exact .inr ⟨.inr hj, hpool⟩
      · rintro (hold | ⟨rfl | hj, hpool⟩)
        · exact .inl (.inl hold)
        · exact .inl (.inr ⟨rfl, hpool⟩)
        · exact .inr ⟨hj, hpool⟩

/-- **A pass leaves every document right** — the keys listed are those of the sources
that have the member in their pool — exactly when nothing else was listed before it. -/
theorem right_after_pass_iff {order : List ι} (hvisits : ∀ k ∈ order, Visits M pool k (f · k))
    (docs : κ → D) (m : κ) :
    (∀ j, j ∈ M.keys (order.foldl f docs m) ↔ j ∈ order ∧ pool j m) ↔
      ∀ j ∈ M.keys (docs m), j ∈ order ∧ pool j m := by
  constructor
  · intro hright j hj
    exact (hright j).mp ((mem_keys_pass hvisits docs).mpr (.inl hj))
  · intro hbefore j
    rw [mem_keys_pass hvisits docs]
    constructor
    · rintro (hold | hnew)
      · exact hbefore j hold
      · exact hnew
    · intro hnew
      exact .inr hnew

end Passes

end MergedViews
