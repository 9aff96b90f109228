import Mathlib
/-!
# Totals under keys

A table keeps one total for each key that is looked after.  It is started from a list,
whose later items take the place of earlier ones under the same key, and items are then
added under their keys; an item whose key nobody looks after is passed over.

* `start_apply` — what the table is started with under a key;
* `addAll_apply` — a key's total adds the items of that key, in order.
-/

namespace KeyedTotals

variable {κ A B D : Type} [DecidableEq κ]

/-- A table with one total for each item; the last of those with one key stays. -/
def start (key : B → κ) (zero : B → A) (items : List B) : κ → Option A :=
  items.foldl (fun m b => Function.update m (key b) (some (zero b))) fun _ => none

def add (key : D → κ) (plus : A → D → A) (m : κ → Option A) (d : D) : κ → Option A :=
  match m (key d) with
  | none => m
  | some a => Function.update m (key d) (some (plus a d))

def addAll (key : D → κ) (plus : A → D → A) (m : κ → Option A) (items : List D) : κ → Option A :=
  items.foldl (add key plus) m

/-- Each key starts with the last item that has it. -/
theorem start_apply {key : B → κ} {zero : B → A} (items : List B) (k : κ) :
    start key zero items k = ((items.filter (key · = k)).getLast?).map zero := by
  induction items using List.reverseRecOn with
  | nil => rfl
  | append_singleton items b ih =>
      unfold start at ih ⊢
      rw [List.foldl_append, List.foldl_cons, List.foldl_nil, List.filter_append]
      by_cases hb : key b = k
      · subst hb
        simp
      · rw [Function.update_of_ne (Ne.symm hb), ih]
        simp [hb]

/-- An addition changes its own key, if that is there. -/
theorem add_apply {key : D → κ} {plus : A → D → A} (m : κ → Option A) (d : D) (k : κ) :
    add key plus m d k = if key d = k then (m k).map (plus · d) else m k := by
  unfold add
  by_cases hd : key d = k
  · subst hd
    rw [if_pos rfl]
    cases hm : m (key d) with
    | none => simpa using hm
    | some a => simp
  · rw [if_neg hd]
    cases m (key d) with
    | none => rfl
    | some a => exact Function.update_of_ne (Ne.symm hd) ..

/-- **A key's total** adds the items of that key. -/
theorem addAll_apply {key : D → κ} {plus : A → D → A} (m : κ → Option A) (items : List D) (k : κ) :
    addAll key plus m items k = (m k).map fun a => (items.filter (key · = k)).foldl plus a := by
  induction items generalizing m with
  | nil => simp [addAll]
  | cons d items ih =>
      have hstep : addAll key plus m (d :: items) = addAll key plus (add key plus m d) items := rfl
      rw [hstep, ih, add_apply]
      by_cases hd : key d = k
      · rw [if_pos hd, List.filter_cons_of_pos (by simpa using hd), Option.map_map]
        rfl
      · rw [if_neg hd, List.filter_cons_of_neg (by simpa using hd)]

/-- A number that each item adds to. -/
theorem foldl_sum {plus : A → D → A} {f : A → Nat} {g : D → Nat}
    (hplus : ∀ a d, f (plus a d) = f a + g d) (items : List D) (a : A) :
    f (items.foldl plus a) = f a + (items.map g).sum := by
  induction items generalizing a with
  | nil => simp
  | cons d items ih =>
      rw [List.foldl_cons, ih, hplus, List.map_cons, List.sum_cons]
      omega

end KeyedTotals
