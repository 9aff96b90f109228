import AdguardAdmin.JsonValue
/-!
# What Python makes of a JSON value

The control plane takes decoded JSON apart with `or`, `get` and `for`.  Where a value is of
another type than the code expects, the interpreter raises: `none`.
-/

namespace AdguardAdmin

variable {ν : Type}

/-- The truth value; `isZero` tells whether a number is zero. -/
def truthy (isZero : ν → Bool) : Json ν → Bool
  | .null => false
  | .bool b => b
  | .num n => !isZero n
  | .str s => s ≠ ""
  | .arr items => !items.isEmpty
  | .obj fields => !fields.isEmpty

/-- `a or b` -/
def orElse (isZero : ν → Bool) (a b : Json ν) : Json ν := if truthy isZero a then a else b

/-- The members of a value that is an object. -/
def fieldsOf : Json ν → List (String × Json ν)
  | .obj fields => fields
  | _ => []

/-- What a `for` loop goes through; a number or truth value has nothing to go through. -/
def iterate : Json ν → Option (List (Json ν))
  | .arr items => some items
  | .obj fields => some (fields.map fun field => .str field.1)
  | .str s => some (s.toList.map fun c => .str (String.ofList [c]))
  | _ => none

/-- Only an object has a method `get`. -/
def asObject? : Json ν → Option (List (String × Json ν))
  | .obj fields => some fields
  | _ => none

def asText? : Json ν → Option String
  | .str s => some s
  | _ => none

/-- `get` with a default. -/
def getOr (fields : List (String × Json ν)) (key : String) (default : Json ν) : Json ν :=
  (fields.reverse.lookup key).getD default

/-! ## Where nothing raises -/

/-- A map that never raises returns all its results. -/
theorem mapM_eq_some {α β : Type} {f : α → Option β} {g : α → β} {xs : List α}
    (h : ∀ x ∈ xs, f x = some (g x)) : xs.mapM f = some (xs.map g) := by
  induction xs with
  | nil => rfl
  | cons x xs ih =>
      obtain ⟨hx, hrest⟩ := List.forall_mem_cons.mp h
      rw [List.mapM_cons, hx, ih hrest]
      rfl

/-- A map whose items all have a result has one. -/
theorem mapM_isSome {α β : Type} {f : α → Option β} {xs : List α}
    (h : ∀ x ∈ xs, ∃ y, f x = some y) : ∃ ys, xs.mapM f = some ys := by
  induction xs with
  | nil => exact ⟨[], rfl⟩
  | cons x xs ih =>
      obtain ⟨⟨y, hy⟩, hrest⟩ := List.forall_mem_cons.mp h
      obtain ⟨ys, hys⟩ := ih hrest
      refine ⟨y :: ys, ?_⟩
      rw [List.mapM_cons, hy, hys]
      rfl

variable (isZero : ν → Bool)

/-- A value of an expected type, or nothing, gives a value of that type. -/
theorem asObject?_orElse {v : Json ν} (h : v = .null ∨ ∃ fields, v = .obj fields) :
    ∃ fields, asObject? (orElse isZero v (.obj [])) = some fields := by
  rcases h with rfl | ⟨fields, rfl⟩
  · exact ⟨[], rfl⟩
  · rw [orElse]
    split
    · exact ⟨fields, rfl⟩
    · exact ⟨[], rfl⟩

/-- A text or nothing is a text after `or ""`. -/
theorem asText?_orElse {v : Json ν} (h : v = .null ∨ ∃ s, v = .str s) :
    ∃ s, asText? (orElse isZero v (.str "")) = some s := by
  rcases h with rfl | ⟨s, rfl⟩
  · exact ⟨"", rfl⟩
  · rw [orElse]
    split
    · exact ⟨s, rfl⟩
    · exact ⟨"", rfl⟩

/-- A list or nothing is a list after `or []`. -/
theorem iterate_orElse {v : Json ν} {items : List (Json ν)}
    (h : v = .null ∧ items = [] ∨ v = .arr items) :
    iterate (orElse isZero v (.arr [])) = some items := by
  rcases h with ⟨rfl, rfl⟩ | rfl
  · rfl
  · cases items with
    | nil => rfl
    | cons item items => rfl

end AdguardAdmin
