import AdguardAdmin.JsonValue
import Mathlib.Data.List.Sort
import Mathlib.Data.List.Lex
import Mathlib.Data.Char
/-!
# JSON values up to the order of members

An object is a map: two values that differ only in the order in which their
objects list their members are the same value.  `Reordered` is that relation,
`normal` sorts the members of every object, and `reordered_iff` says that sorting
decides the relation on values whose keys are unique.
-/

namespace Json

variable {α β μ ν : Type}

/-! ## Induction -/

/-- Induction over the items of arrays and the members of objects. -/
theorem induct {P : Json ν → Prop} (null : P .null) (bool : ∀ b, P (.bool b))
    (num : ∀ n, P (.num n)) (str : ∀ s, P (.str s))
    (arr : ∀ items, (∀ v ∈ items, P v) → P (.arr items))
    (obj : ∀ fields, (∀ kv ∈ fields, P kv.2) → P (.obj fields)) (v : Json ν) : P v := by
  refine @Json.rec ν P (fun items => ∀ v ∈ items, P v) (fun fields => ∀ kv ∈ fields, P kv.2)
    (fun kv => P kv.2) null bool num str arr obj ?_ ?_ ?_ ?_ ?_ v
  · intro v hv
    exact nomatch hv
  · intro v items hhead htail w hw
    rcases List.mem_cons.mp hw with rfl | hw
    · exact hhead
    · exact htail w hw
  · intro kv hkv
    exact nomatch hkv
  · intro kv fields hhead htail kw hkw
    rcases List.mem_cons.mp hkw with rfl | hkw
    · exact hhead
    · exact htail kw hkw
  · intro k v hv
    exact hv

/-! ## Sorting members -/

/-- Keys compare by code points. -/
def KeyLe (a b : String × α) : Prop := a.1.toList ≤ b.1.toList

instance : DecidableRel (KeyLe (α := α)) := fun a b =>
  inferInstanceAs (Decidable (a.1.toList ≤ b.1.toList))

instance : Std.Total (KeyLe (α := α)) := ⟨fun a b => le_total a.1.toList b.1.toList⟩

instance : IsTrans (String × α) KeyLe := ⟨fun _ _ _ hab hbc => le_trans hab hbc⟩

def sortMembers (fields : List (String × α)) : List (String × α) := fields.insertionSort KeyLe

theorem sortMembers_perm (fields : List (String × α)) : (sortMembers fields).Perm fields :=
  List.perm_insertionSort _ _

theorem sortMembers_sortMembers (fields : List (String × α)) :
    sortMembers (sortMembers fields) = sortMembers fields :=
  (List.pairwise_insertionSort _ _).insertionSort_eq

/-- Members with one key are one member. -/
private theorem eq_of_key {fields : List (String × α)} (h : (fields.map Prod.fst).Nodup)
    {a b : String × α} (ha : a ∈ fields) (hb : b ∈ fields) (hkey : a.1 = b.1) : a = b :=
  List.inj_on_of_nodup_map h ha hb hkey

/-- Sorting forgets the order. -/
theorem sortMembers_eq_of_perm {fields fields' : List (String × α)}
    (h : (fields.map Prod.fst).Nodup) (hperm : fields.Perm fields') :
    sortMembers fields = sortMembers fields' := by
  have hsorted := (sortMembers_perm fields).trans (hperm.trans (sortMembers_perm fields').symm)
  refine hsorted.eq_of_pairwise ?_ (List.pairwise_insertionSort _ _)
    (List.pairwise_insertionSort _ _)
  intro a b ha hb hab hba
  have hkey : a.1 = b.1 := String.toList_inj.mp (le_antisymm hab hba)
  have ha' : a ∈ fields := (sortMembers_perm fields).mem_iff.mp ha
  have hb' : b ∈ fields := hperm.mem_iff.mpr ((sortMembers_perm fields').mem_iff.mp hb)
  exact eq_of_key h ha' hb' hkey

/-- The members with their values mapped. -/
def mapValues (f : α → β) (fields : List (String × α)) : List (String × β) :=
  fields.map fun kv => (kv.1, f kv.2)

theorem mapValues_keys (f : α → β) (fields : List (String × α)) :
    (mapValues f fields).map Prod.fst = fields.map Prod.fst := by
  simp [mapValues, Function.comp_def]

theorem mapValues_mapValues {γ : Type} (g : β → γ) (f : α → β) (fields : List (String × α)) :
    mapValues g (mapValues f fields) = mapValues (fun v => g (f v)) fields := by
  simp [mapValues, Function.comp_def]

/-- Values may be mapped in either way where both do the same. -/
theorem mapValues_congr {f g : α → β} {fields : List (String × α)}
    (h : ∀ kv ∈ fields, f kv.2 = g kv.2) : mapValues f fields = mapValues g fields := by
  refine List.map_congr_left ?_
  intro kv hkv
  rw [h kv hkv]

/-- Sorting and mapping commute. -/
theorem sortMembers_mapValues (f : α → β) (fields : List (String × α)) :
    sortMembers (mapValues f fields) = mapValues f (sortMembers fields) :=
  (List.map_insertionSort KeyLe KeyLe (fun kv : String × α => (kv.1, f kv.2)) fields
    fun _ _ _ _ => Iff.rfl).symm

/-! ## Members of every object -/

mutual

/-- The value with the members of every object sorted. -/
def normal : Json ν → Json ν
  | .arr items => .arr (normalItems items)
  | .obj fields => .obj (sortMembers (normalFields fields))
  | .null => .null
  | .bool b => .bool b
  | .num n => .num n
  | .str s => .str s

def normalItems : List (Json ν) → List (Json ν)
  | [] => []
  | v :: rest => normal v :: normalItems rest

def normalFields : List (String × Json ν) → List (String × Json ν)
  | [] => []
  | (k, v) :: rest => (k, normal v) :: normalFields rest

end

mutual

/-- The value with its numbers mapped. -/
def mapNum (f : μ → ν) : Json μ → Json ν
  | .arr items => .arr (mapNumItems f items)
  | .obj fields => .obj (mapNumFields f fields)
  | .null => .null
  | .bool b => .bool b
  | .num n => .num (f n)
  | .str s => .str s

def mapNumItems (f : μ → ν) : List (Json μ) → List (Json ν)
  | [] => []
  | v :: rest => mapNum f v :: mapNumItems f rest

def mapNumFields (f : μ → ν) : List (String × Json μ) → List (String × Json ν)
  | [] => []
  | (k, v) :: rest => (k, mapNum f v) :: mapNumFields f rest

end

mutual

/-- Every number of the value satisfies `p`, and the keys of every object `q`. -/
def Every (p : ν → Prop) (q : List String → Prop) : Json ν → Prop
  | .num n => p n
  | .arr items => EveryItem p q items
  | .obj fields => q (fields.map Prod.fst) ∧ EveryField p q fields
  | .null => True
  | .bool _ => True
  | .str _ => True

def EveryItem (p : ν → Prop) (q : List String → Prop) : List (Json ν) → Prop
  | [] => True
  | v :: rest => Every p q v ∧ EveryItem p q rest

def EveryField (p : ν → Prop) (q : List String → Prop) : List (String × Json ν) → Prop
  | [] => True
  | (_, v) :: rest => Every p q v ∧ EveryField p q rest

end

/-- No object of the value repeats a key. -/
def UniqueKeys (v : Json ν) : Prop := Every (fun _ => True) List.Nodup v

/-- Items are normalised one by one. -/
theorem normalItems_eq (items : List (Json ν)) : normalItems items = items.map normal := by
  induction items with
  | nil => rfl
  | cons v rest ih => rw [normalItems, ih, List.map_cons]

/-- The normal form of members has the same names and normal values. -/
theorem normalFields_eq (fields : List (String × Json ν)) :
    normalFields fields = mapValues normal fields := by
  induction fields with
  | nil => rfl
  | cons kv rest ih =>
      rw [normalFields, ih]
      rfl

@[simp] theorem normal_arr (items : List (Json ν)) :
    normal (.arr items) = .arr (items.map normal) := by
  rw [normal, normalItems_eq]

@[simp] theorem normal_obj (fields : List (String × Json ν)) :
    normal (.obj fields) = .obj (sortMembers (mapValues normal fields)) := by
  rw [normal, normalFields_eq]

/-- Numbers are mapped item by item. -/
theorem mapNumItems_eq (f : μ → ν) (items : List (Json μ)) :
    mapNumItems f items = items.map (mapNum f) := by
  induction items with
  | nil => rfl
  | cons v rest ih => rw [mapNumItems, ih, List.map_cons]

/-- Numbers are mapped member by member. -/
theorem mapNumFields_eq (f : μ → ν) (fields : List (String × Json μ)) :
    mapNumFields f fields = mapValues (mapNum f) fields := by
  induction fields with
  | nil => rfl
  | cons kv rest ih =>
      rw [mapNumFields, ih]
      rfl

@[simp] theorem mapNum_arr (f : μ → ν) (items : List (Json μ)) :
    mapNum f (.arr items) = .arr (items.map (mapNum f)) := by
  rw [mapNum, mapNumItems_eq]

@[simp] theorem mapNum_obj (f : μ → ν) (fields : List (String × Json μ)) :
    mapNum f (.obj fields) = .obj (mapValues (mapNum f) fields) := by
  rw [mapNum, mapNumFields_eq]

@[simp] theorem every_arr (p : ν → Prop) (q : List String → Prop) (items : List (Json ν)) :
    Every p q (.arr items) ↔ ∀ v ∈ items, Every p q v := by
  rw [Every]
  induction items with
  | nil => simp [EveryItem]
  | cons v rest ih => simp [EveryItem, ih]

@[simp] theorem every_obj (p : ν → Prop) (q : List String → Prop)
    (fields : List (String × Json ν)) :
    Every p q (.obj fields) ↔ q (fields.map Prod.fst) ∧ ∀ kv ∈ fields, Every p q kv.2 := by
  have hfields : EveryField p q fields ↔ ∀ kv ∈ fields, Every p q kv.2 := by
    induction fields with
    | nil => simp [EveryField]
    | cons kv rest ih => simp [EveryField, ih]
  rw [Every, hfields]

@[simp] theorem uniqueKeys_arr (items : List (Json ν)) :
    UniqueKeys (.arr items) ↔ ∀ v ∈ items, UniqueKeys v := by
  simp [UniqueKeys]

@[simp] theorem uniqueKeys_obj (fields : List (String × Json ν)) :
    UniqueKeys (.obj fields) ↔
      (fields.map Prod.fst).Nodup ∧ ∀ kv ∈ fields, UniqueKeys kv.2 := by
  simp [UniqueKeys]

/-! ## Normal values -/

/-- Normalising and mapping commute. -/
theorem normal_mapNum (f : μ → ν) (v : Json μ) : normal (mapNum f v) = mapNum f (normal v) := by
  induction v using Json.induct with
  | null => rfl
  | bool b => rfl
  | num n => rfl
  | str s => rfl
  | arr items ih =>
      have hitems : (items.map (mapNum f)).map normal = (items.map normal).map (mapNum f) := by
        rw [List.map_map, List.map_map]
        exact List.map_congr_left ih
      rw [mapNum_arr, normal_arr, normal_arr, mapNum_arr, hitems]
  | obj fields ih =>
      have hvalues : mapValues normal (mapValues (mapNum f) fields) =
          mapValues (mapNum f) (mapValues normal fields) := by
        rw [mapValues_mapValues, mapValues_mapValues]
        exact mapValues_congr ih
      rw [mapNum_obj, normal_obj, normal_obj, mapNum_obj, hvalues, sortMembers_mapValues]

/-- Normal values have unique keys, if the value has. -/
theorem uniqueKeys_normal {v : Json ν} (h : UniqueKeys v) : UniqueKeys (normal v) := by
  induction v using Json.induct with
  | null => exact h
  | bool b => exact h
  | num n => exact h
  | str s => exact h
  | arr items ih =>
      rw [uniqueKeys_arr] at h
      rw [normal_arr, uniqueKeys_arr]
      intro w hw
      obtain ⟨v, hv, rfl⟩ := List.mem_map.mp hw
      exact ih v hv (h v hv)
  | obj fields ih =>
      rw [uniqueKeys_obj] at h
      have hperm := sortMembers_perm (mapValues normal fields)
      rw [normal_obj, uniqueKeys_obj]
      refine ⟨?_, ?_⟩
      · rw [(hperm.map Prod.fst).nodup_iff, mapValues_keys]
        exact h.1
      · intro kv hkv
        obtain ⟨kw, hkw, rfl⟩ := List.mem_map.mp (hperm.mem_iff.mp hkv)
        exact ih kw hkw (h.2 kw hkw)

/-- A value with mapped numbers has unique keys if the value does. -/
theorem uniqueKeys_mapNum {f : μ → ν} {v : Json μ} (h : UniqueKeys v) :
    UniqueKeys (mapNum f v) := by
  induction v using Json.induct with
  | null => exact trivial
  | bool b => exact trivial
  | num n => exact trivial
  | str s => exact trivial
  | arr items ih =>
      rw [uniqueKeys_arr] at h
      rw [mapNum_arr, uniqueKeys_arr]
      intro w hw
      obtain ⟨v, hv, rfl⟩ := List.mem_map.mp hw
      exact ih v hv (h v hv)
  | obj fields ih =>
      rw [uniqueKeys_obj] at h
      rw [mapNum_obj, uniqueKeys_obj, mapValues_keys]
      refine ⟨h.1, ?_⟩
      intro kv hkv
      obtain ⟨kw, hkw, rfl⟩ := List.mem_map.mp hkv
      exact ih kw hkw (h.2 kw hkw)

/-- A map of numbers is undone by its inverse. -/
theorem mapNum_leftInverse {f : μ → ν} {g : ν → μ} (hg : Function.LeftInverse g f) :
    Function.LeftInverse (mapNum g) (mapNum f) := by
  intro v
  induction v using Json.induct with
  | null => rfl
  | bool b => rfl
  | num n => rw [mapNum, mapNum, hg n]
  | str s => rfl
  | arr items ih =>
      have hitems : (items.map (mapNum f)).map (mapNum g) = items := by
        rw [List.map_map]
        exact (List.map_congr_left ih).trans (List.map_id' items)
      rw [mapNum_arr, mapNum_arr, hitems]
  | obj fields ih =>
      have hvalues : mapValues (mapNum g) (mapValues (mapNum f) fields) = fields := by
        rw [mapValues_mapValues]
        exact (mapValues_congr (g := id) ih).trans (List.map_id' fields)
      rw [mapNum_obj, mapNum_obj, hvalues]

/-- Different values are mapped to different ones. -/
theorem mapNum_injective [Nonempty μ] {f : μ → ν} (hf : Function.Injective f) :
    Function.Injective (mapNum f) := by
  obtain ⟨g, hg⟩ := hf.hasLeftInverse
  exact (mapNum_leftInverse hg).injective

/-! ## The same value -/

/-- The same value with members listed in another order, at any depth. -/
inductive Reordered : Json ν → Json ν → Prop where
  | refl (v : Json ν) : Reordered v v
  | trans {u v w : Json ν} (huv : Reordered u v) (hvw : Reordered v w) : Reordered u w
  | members {fields fields' : List (String × Json ν)} (h : fields.Perm fields') :
      Reordered (.obj fields) (.obj fields')
  | item (pre post : List (Json ν)) {v w : Json ν} (h : Reordered v w) :
      Reordered (.arr (pre ++ v :: post)) (.arr (pre ++ w :: post))
  | member (pre post : List (String × Json ν)) (k : String) {v w : Json ν} (h : Reordered v w) :
      Reordered (.obj (pre ++ (k, v) :: post)) (.obj (pre ++ (k, w) :: post))

/-- What was reordered can be ordered back. -/
theorem Reordered.symm {v w : Json ν} (h : Reordered v w) : Reordered w v := by
  induction h with
  | refl v => exact .refl v
  | trans _ _ ihuv ihvw => exact .trans ihvw ihuv
  | members h => exact .members h.symm
  | item pre post _ ih => exact .item pre post ih
  | member pre post k _ ih => exact .member pre post k ih

/-- Reordering every item reorders the array. -/
theorem reordered_items (f : Json ν → Json ν) (pre items : List (Json ν))
    (h : ∀ v ∈ items, Reordered v (f v)) :
    Reordered (.arr (pre ++ items)) (.arr (pre ++ items.map f)) := by
  induction items generalizing pre with
  | nil => exact .refl _
  | cons v rest ih =>
      have hhead : Reordered (.arr (pre ++ v :: rest)) (.arr (pre ++ f v :: rest)) :=
        .item pre rest (h v List.mem_cons_self)
      have htail := ih (pre ++ [f v]) fun w hw => h w (List.mem_cons_of_mem v hw)
      rw [List.append_assoc, List.append_assoc] at htail
      exact .trans hhead htail

/-- Members may be reordered within. -/
theorem reordered_values (f : Json ν → Json ν) (pre fields : List (String × Json ν))
    (h : ∀ kv ∈ fields, Reordered kv.2 (f kv.2)) :
    Reordered (.obj (pre ++ fields)) (.obj (pre ++ mapValues f fields)) := by
  induction fields generalizing pre with
  | nil => exact .refl _
  | cons kv rest ih =>
      have hhead : Reordered (.obj (pre ++ kv :: rest)) (.obj (pre ++ (kv.1, f kv.2) :: rest)) :=
        .member pre rest kv.1 (h kv List.mem_cons_self)
      have htail := ih (pre ++ [(kv.1, f kv.2)]) fun w hw => h w (List.mem_cons_of_mem kv hw)
      rw [List.append_assoc, List.append_assoc] at htail
      exact .trans hhead htail

/-- A value is its normal one, reordered. -/
theorem reordered_normal (v : Json ν) : Reordered v (normal v) := by
  induction v using Json.induct with
  | null => exact .refl _
  | bool b => exact .refl _
  | num n => exact .refl _
  | str s => exact .refl _
  | arr items ih =>
      rw [normal_arr]
      exact reordered_items normal [] items ih
  | obj fields ih =>
      have hvalues := reordered_values normal [] fields ih
      rw [normal_obj]
      exact .trans hvalues (.members (sortMembers_perm _).symm)

/-- A reordering lists the same keys, and sorts to the same value. -/
theorem Reordered.normal_eq {v w : Json ν} (h : Reordered v w) (hv : UniqueKeys v) :
    UniqueKeys w ∧ normal v = normal w := by
  induction h with
  | refl v => exact ⟨hv, rfl⟩
  | trans _ _ ihuv ihvw =>
      obtain ⟨hunique, huv⟩ := ihuv hv
      obtain ⟨hunique', hvw⟩ := ihvw hunique
      exact ⟨hunique', huv.trans hvw⟩
  | @members fields fields' h =>
      rw [uniqueKeys_obj] at hv ⊢
      have hkeys : (fields'.map Prod.fst).Nodup := (h.map Prod.fst).nodup_iff.mp hv.1
      refine ⟨⟨hkeys, fun kv hkv => hv.2 kv (h.mem_iff.mpr hkv)⟩, ?_⟩
      have hmapped : ((mapValues normal fields).map Prod.fst).Nodup := by
        rw [mapValues_keys]
        exact hv.1
      rw [normal_obj, normal_obj, sortMembers_eq_of_perm hmapped (h.map _)]
      rfl
  | @item pre post v w _ ih =>
      rw [uniqueKeys_arr] at hv ⊢
      obtain ⟨hunique, heq⟩ := ih (hv v (by simp))
      refine ⟨?_, by simp [heq]⟩
      intro u hu
      rcases List.mem_append.mp hu with hu | hu
      · exact hv u (List.mem_append_left _ hu)
      · rcases List.mem_cons.mp hu with rfl | hu
        · exact hunique
        · exact hv u (List.mem_append_right _ (List.mem_cons_of_mem _ hu))
  | @member pre post k v w _ ih =>
      rw [uniqueKeys_obj] at hv ⊢
      obtain ⟨hunique, heq⟩ := ih (hv.2 (k, v) (by simp))
      refine ⟨⟨by simpa using hv.1, ?_⟩, by simp [mapValues, heq]⟩
      intro u hu
      rcases List.mem_append.mp hu with hu | hu
      · exact hv.2 u (List.mem_append_left _ hu)
      · rcases List.mem_cons.mp hu with rfl | hu
        · exact hunique
        · exact hv.2 u (List.mem_append_right _ (List.mem_cons_of_mem _ hu))

/-- **Sorting decides whether two values are the same.** -/
theorem reordered_iff {v w : Json ν} (hv : UniqueKeys v) :
    Reordered v w ↔ normal v = normal w := by
  refine ⟨fun h => (h.normal_eq hv).2, ?_⟩
  intro h
  have hw := (reordered_normal w).symm
  rw [← h] at hw
  exact .trans (reordered_normal v) hw

/-! ## Values that keep one order -/

/-- The keys of every object stand in the order given. -/
def KeysAlong (order : List String) (v : Json ν) : Prop :=
  Every (fun _ => True) (fun keys => keys.Sublist order) v

/-- Keys along one order are unique. -/
theorem uniqueKeys_of_keysAlong {order : List String} (horder : order.Nodup) {v : Json ν}
    (h : KeysAlong order v) : UniqueKeys v := by
  induction v using Json.induct with
  | null => exact trivial
  | bool b => exact trivial
  | num n => exact trivial
  | str s => exact trivial
  | arr items ih =>
      unfold KeysAlong at h
      rw [every_arr] at h
      rw [uniqueKeys_arr]
      exact fun v hv => ih v hv (h v hv)
  | obj fields ih =>
      unfold KeysAlong at h
      rw [every_obj] at h
      rw [uniqueKeys_obj]
      exact ⟨horder.sublist h.1, fun kv hkv => ih kv hkv (h.2 kv hkv)⟩

/-- The members of a list without duplicates stand along their positions. -/
theorem pairwise_idxOf {order : List String} (h : order.Nodup) :
    order.Pairwise fun a b => order.idxOf a < order.idxOf b := by
  rw [List.pairwise_iff_getElem]
  intro i j hi hj hij
  rw [h.idxOf_getElem i hi, h.idxOf_getElem j hj]
  exact hij

/-- Members in one order are told by which they are. -/
theorem eq_of_perm_of_sublist {order : List String} (horder : order.Nodup)
    {fields fields' : List (String × α)} (h : (fields.map Prod.fst).Sublist order)
    (h' : (fields'.map Prod.fst).Sublist order) (hperm : fields.Perm fields') :
    fields = fields' := by
  have hsorted : ∀ {members : List (String × α)}, (members.map Prod.fst).Sublist order →
      members.Pairwise fun a b => order.idxOf a.1 < order.idxOf b.1 := by
    intro members hmembers
    have hkeys := (pairwise_idxOf horder).sublist hmembers
    rwa [List.pairwise_map] at hkeys
  refine hperm.eq_of_pairwise ?_ (hsorted h) (hsorted h')
  intro a b _ _ hab hba
  omega

/-- Lists whose items are told apart by what they are mapped to. -/
private theorem eq_of_map_eq {f : α → β} {xs ys : List α}
    (h : ∀ x ∈ xs, ∀ y ∈ ys, f x = f y → x = y) (hmap : xs.map f = ys.map f) : xs = ys := by
  induction xs generalizing ys with
  | nil => exact (List.map_eq_nil_iff.mp hmap.symm).symm
  | cons x rest ih =>
      cases ys with
      | nil => cases hmap
      | cons y rest' =>
          obtain ⟨hfirst, hrest⟩ := List.cons.inj hmap
          have hxy := h x List.mem_cons_self y List.mem_cons_self hfirst
          have htail := ih (fun a ha b hb =>
            h a (List.mem_cons_of_mem _ ha) b (List.mem_cons_of_mem _ hb)) hrest
          rw [hxy, htail]

/-- Values that keep one order are the same if sorting makes them so. -/
theorem eq_of_normal_eq {order : List String} (horder : order.Nodup) {v w : Json ν}
    (hv : KeysAlong order v) (hw : KeysAlong order w) (h : normal v = normal w) : v = w := by
  induction v using Json.induct generalizing w with
  | null => cases w <;> first | rfl | cases h
  | bool b => cases w <;> first | exact h | cases h
  | num n => cases w <;> first | exact h | cases h
  | str s => cases w <;> first | exact h | cases h
  | arr items ih =>
      cases w with
      | arr items' =>
          rw [normal_arr, normal_arr] at h
          have hitems := Json.arr.inj h
          unfold KeysAlong at hv hw
          rw [every_arr] at hv hw
          have hsame : items = items' :=
            eq_of_map_eq (fun u hu u' hu' => ih u hu (hv u hu) (hw u' hu')) hitems
          rw [hsame]
      | obj fields' => rw [normal_arr, normal_obj] at h; cases h
      | null => cases h
      | bool b => cases h
      | num n => cases h
      | str s => cases h
  | obj fields ih =>
      cases w with
      | obj fields' =>
          rw [normal_obj, normal_obj] at h
          have hsorted := Json.obj.inj h
          unfold KeysAlong at hv hw
          rw [every_obj] at hv hw
          have hperm : (mapValues normal fields).Perm (mapValues normal fields') :=
            (sortMembers_perm _).symm.trans (hsorted ▸ sortMembers_perm _)
          have hmapped : mapValues normal fields = mapValues normal fields' :=
            eq_of_perm_of_sublist horder (by rw [mapValues_keys]; exact hv.1)
              (by rw [mapValues_keys]; exact hw.1) hperm
          have hsame : fields = fields' := by
            apply eq_of_map_eq _ hmapped
            intro kv hkv kv' hkv' heq
            obtain ⟨hkey, hvalue⟩ := Prod.mk.inj heq
            exact Prod.ext hkey (ih kv hkv (hv.2 kv hkv) (hw.2 kv' hkv') hvalue)
          rw [hsame]
      | arr items' => rw [normal_arr, normal_obj] at h; cases h
      | null => rw [normal_obj] at h; cases h
      | bool b => rw [normal_obj] at h; cases h
      | num n => rw [normal_obj] at h; cases h
      | str s => rw [normal_obj] at h; cases h

end Json
