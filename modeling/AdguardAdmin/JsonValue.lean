import AdguardAdmin.GoText
/-!
# JSON values

One value type for both programs, generic in what a number is: the control plane
builds values over `Int`, the agent keeps number texts verbatim when it hashes
and reads integers when it decodes a spec.

The second half reads values the way `encoding/json` fills a struct: a missing
member and `null` leave the zero value, anything of another type is an error.
-/

/-- A JSON value whose numbers are of type `ν`. -/
inductive Json (ν : Type) where
  | null
  | bool (b : Bool)
  | num (n : ν)
  | str (s : String)
  | arr (items : List (Json ν))
  | obj (fields : List (String × Json ν))
  deriving Repr

namespace Json

variable {ν : Type}

/-- A list of strings. -/
def strs (items : List String) : Json ν := .arr (items.map .str)

/-! ## Filling a struct -/

open GoText

/-- The members an object offers; `null` offers none. -/
def members : Json ν → Except Error (List (String × Json ν))
  | .null => .ok []
  | .obj fields => .ok fields
  | _ => errorf "json: cannot unmarshal into struct" []

/-- The member under a key, the last one if it is repeated. -/
def get (fields : List (String × Json ν)) (key : String) : Json ν :=
  (fields.reverse.lookup key).getD .null

def readString : Json ν → Except Error String
  | .null => .ok ""
  | .str s => .ok s
  | _ => errorf "json: cannot unmarshal into string" []

def readBool? : Json ν → Except Error (Option Bool)
  | .null => .ok none
  | .bool b => .ok (some b)
  | _ => errorf "json: cannot unmarshal into bool" []

def readBool (v : Json ν) : Except Error Bool := do
  return (← readBool? v).getD false

def readInt : Json Int → Except Error Int
  | .null => .ok 0
  | .num n => if IsInt64 n then .ok n else errorf "json: cannot unmarshal number into int" []
  | _ => errorf "json: cannot unmarshal into int" []

/-- A slice: `none` for the nil slice. -/
def readList? {α : Type} (item : Json ν → Except Error α) : Json ν → Except Error (Option (List α))
  | .null => .ok none
  | .arr items => do return some (← items.mapM item)
  | _ => errorf "json: cannot unmarshal into slice" []

def readList {α : Type} (item : Json ν → Except Error α) (v : Json ν) :
    Except Error (List α) := do
  return (← readList? item v).getD []

/-- A pointer to a struct. -/
def readStruct? {α : Type} (fields : List (String × Json ν) → Except Error α) :
    Json ν → Except Error (Option α)
  | .null => .ok none
  | .obj ms => do return some (← fields ms)
  | _ => errorf "json: cannot unmarshal into struct" []

/-- A list of strings is read as it is. -/
theorem readList?_strs (items : List String) :
    readList? readString (strs items : Json ν) = .ok (some items) := by
  have hmap : (items.map (.str : String → Json ν)).mapM readString = .ok items := by
    induction items with
    | nil => rfl
    | cons s rest ih => rw [List.map_cons, List.mapM_cons, ih]; rfl
  simp only [strs, readList?, hmap]
  rfl

/-- An integer is read when it fits into 64 bits. -/
theorem readInt_num {n m : Int} : readInt (.num n) = .ok m ↔ IsInt64 n ∧ n = m := by
  unfold readInt
  by_cases h : IsInt64 n
  · simp [h]
  · simp [h, errorf]

/-- A list of strings that need not be there is read back. -/
theorem readList_strs (items : List String) :
    readList readString (strs items : Json ν) = .ok items := by
  simp only [readList, readList?_strs]
  rfl

/-- A list of values that are read back when they fit. -/
theorem readList_arr {α β : Type} {toJson : α → Json ν} {item : Json ν → Except Error β}
    {g : α → β} {p : α → Prop} (hitem : ∀ a b, item (toJson a) = .ok b ↔ p a ∧ g a = b)
    {l : List α} {r : List β} :
    readList item (.arr (l.map toJson)) = .ok r ↔ (∀ a ∈ l, p a) ∧ l.map g = r := by
  have hmapM : ∀ {r : List β}, (l.map toJson).mapM item = .ok r ↔ (∀ a ∈ l, p a) ∧ l.map g = r := by
    intro r
    rw [List.mapM_map]
    exact mapM_eq_ok hitem
  simp only [readList, readList?, bind_ok, pure_ok, hmapM]
  constructor
  · rintro ⟨_, ⟨_, ⟨hl, rfl⟩, rfl⟩, rfl⟩
    exact ⟨hl, rfl⟩
  · rintro ⟨hl, rfl⟩
    exact ⟨_, ⟨_, ⟨hl, rfl⟩, rfl⟩, rfl⟩

end Json
