import Mathlib.Data.List.Basic
import Mathlib.Data.List.Nodup
/-!
# Upserts into a keyed list

A list holds one entry for each key.  An upsert changes the entry of its key, which is
made first when there is none; entries that are there keep their places and new ones
go to the end.

* `find_upsertAll` — what a sequence of upserts leaves under one key;
* `upsertAll_nil`, `upsertAll_map` — upserts of distinct keys make one entry each, and
  change each entry once.
-/

namespace Upserts

variable {κ E τ : Type} [DecidableEq κ]

section

variable (key : E → κ) (new : κ → E)

def upsert (l : List E) (u : κ × (E → E)) : List E :=
  if u.1 ∈ l.map key then l.map fun e => if key e = u.1 then u.2 e else e
  else l ++ [u.2 (new u.1)]

def upsertAll (l : List E) (us : List (κ × (E → E))) : List E := us.foldl (upsert key new) l

/-- The entry of a key. -/
def find (k : κ) (l : List E) : Option E := l.find? (key · = k)

/-- The changes of a sequence that are about one key. -/
def changesOf (k : κ) (us : List (κ × (E → E))) : List (E → E) :=
  (us.filter (·.1 = k)).map (·.2)

/-- An entry after changes; the first of them makes it. -/
def changed (k : κ) : Option E → List (E → E) → Option E
  | e, [] => e
  | e, f :: fs => some (fs.foldl (fun e f => f e) (f (e.getD (new k))))

end

variable {key : E → κ} {new : κ → E} {l : List E} {us : List (κ × (E → E))} {k : κ}

@[simp] theorem upsertAll_empty (l : List E) : upsertAll key new l [] = l := rfl

@[simp] theorem upsertAll_cons (l : List E) (u : κ × (E → E)) (us : List (κ × (E → E))) :
    upsertAll key new l (u :: us) = upsertAll key new (upsert key new l u) us := rfl

theorem upsertAll_append (l : List E) (us vs : List (κ × (E → E))) :
    upsertAll key new l (us ++ vs) = upsertAll key new (upsertAll key new l us) vs :=
  List.foldl_append

/-- The changes keep the keys of the entries. -/
def Keeps (key : E → κ) (us : List (κ × (E → E))) : Prop := ∀ u ∈ us, ∀ e, key (u.2 e) = key e

/-- A key is there when it is found. -/
theorem mem_map_key_iff : k ∈ l.map key ↔ (find key k l).isSome = true := by
  unfold find
  rw [List.find?_isSome, List.mem_map]
  simp

/-- An upsert is seen under its own key only. -/
theorem find_upsert {u : κ × (E → E)} (hnew : key (new u.1) = u.1)
    (hkeeps : ∀ e, key (u.2 e) = key e) :
    find key k (upsert key new l u) =
      if u.1 = k then some (u.2 ((find key k l).getD (new k))) else find key k l := by
  obtain ⟨j, f⟩ := u
  dsimp only at hnew hkeeps ⊢
  have hmap : ∀ m : List E, find key k (m.map fun e => if key e = j then f e else e) =
      if j = k then (find key k m).map f else find key k m := by
    intro m
    induction m with
    | nil => simp [find]
    | cons e m ih =>
        unfold find at ih ⊢
        rw [List.map_cons, List.find?_cons, List.find?_cons, ih]
        by_cases he : key e = j
        · by_cases hj : j = k <;> simp [he, hj, hkeeps]
        · rw [if_neg he]
          by_cases hk : key e = k
          · have hne : j ≠ k := fun heq => he (hk.trans heq.symm)
            simp [hk, hne]
          · by_cases hj : j = k <;> simp [hk, hj]
  unfold upsert
  by_cases hj : j = k
  · subst hj
    by_cases hmem : j ∈ l.map key
    · obtain ⟨e, he⟩ := Option.isSome_iff_exists.mp (mem_map_key_iff.mp hmem)
      rw [if_pos hmem, hmap, if_pos rfl, if_pos rfl, he]
      rfl
    · have hnone : find key j l = none := by
        rw [← Option.not_isSome_iff_eq_none, ← mem_map_key_iff]
        exact hmem
      rw [if_neg hmem, if_pos rfl, hnone]
      unfold find at hnone ⊢
      rw [List.find?_append, hnone]
      simp [hkeeps, hnew]
  · rw [if_neg hj]
    split
    · rw [hmap, if_neg hj]
    · unfold find
      rw [List.find?_append]
      simp [hkeeps, hnew, hj]

/-- **What upserts leave under a key** is what the changes of that key make of it. -/
theorem find_upsertAll (hnew : ∀ k, key (new k) = k) (hkeeps : Keeps key us) (l : List E) :
    find key k (upsertAll key new l us) = changed new k (find key k l) (changesOf k us) := by
  induction us generalizing l with
  | nil => rfl
  | cons u us ih =>
      have hfirst : ∀ e, key (u.2 e) = key e := hkeeps u List.mem_cons_self
      have hrest : Keeps key us := fun v hv => hkeeps v (List.mem_cons_of_mem _ hv)
      rw [upsertAll_cons, ih hrest, find_upsert (hnew _) hfirst]
      by_cases hu : u.1 = k
      · have hchanges : changesOf k (u :: us) = u.2 :: changesOf k us := by
          simp [changesOf, hu]
        rw [if_pos hu, hchanges]
        cases changesOf k us <;> rfl
      · have hchanges : changesOf k (u :: us) = changesOf k us := by
          simp [changesOf, hu]
        rw [if_neg hu, hchanges]

/-- An upsert puts a new key behind the others. -/
theorem keys_upsert (hnew : ∀ k, key (new k) = k) {u : κ × (E → E)}
    (hkeeps : ∀ e, key (u.2 e) = key e) :
    (upsert key new l u).map key =
      if u.1 ∈ l.map key then l.map key else l.map key ++ [u.1] := by
  unfold upsert
  split
  · rw [List.map_map]
    refine List.map_congr_left fun e _ => ?_
    dsimp only [Function.comp_apply]
    split
    · exact hkeeps e
    · rfl
  · simp [hkeeps, hnew]

/-- Upserts of distinct keys that are not there make one entry each. -/
theorem upsertAll_fresh (hnew : ∀ k, key (new k) = k) {ts : List τ} {k : τ → κ} {f : τ → E → E}
    (hkeeps : ∀ t ∈ ts, ∀ e, key (f t e) = key e) (hnodup : (ts.map k).Nodup)
    (hfresh : ∀ t ∈ ts, k t ∉ l.map key) :
    upsertAll key new l (ts.map fun t => (k t, f t)) = l ++ ts.map fun t => f t (new (k t)) := by
  induction ts generalizing l with
  | nil => simp
  | cons t ts ih =>
      rw [List.map_cons, List.nodup_cons] at hnodup
      rw [List.forall_mem_cons] at hkeeps hfresh
      have hput : upsert key new l (k t, f t) = l ++ [f t (new (k t))] := if_neg hfresh.1
      rw [List.map_cons, upsertAll_cons, hput, ih hkeeps.2 hnodup.2]
      · simp
      · intro s hs hmem
        rw [List.map_append, List.mem_append] at hmem
        rcases hmem with hold | hmade
        · exact hfresh.2 s hs hold
        · have hsame : k s = k t := by simpa [hkeeps.1, hnew] using hmade
          exact hnodup.1 (hsame ▸ List.mem_map_of_mem hs)

/-- **A first pass** makes one entry for each key. -/
theorem upsertAll_nil (hnew : ∀ k, key (new k) = k) {ts : List τ} {k : τ → κ} {f : τ → E → E}
    (hkeeps : ∀ t ∈ ts, ∀ e, key (f t e) = key e) (hnodup : (ts.map k).Nodup) :
    upsertAll key new [] (ts.map fun t => (k t, f t)) = ts.map fun t => f t (new (k t)) :=
  upsertAll_fresh hnew hkeeps hnodup (by simp)

omit [DecidableEq κ] in
private theorem map_eq_self {f : E → E} (h : ∀ e ∈ l, f e = e) : l.map f = l :=
  (List.map_congr_left h).trans (List.map_id _)

/-- A pass does not touch the entries of other keys. -/
theorem upsertAll_other {front : List E} (hother : ∀ u ∈ us, u.1 ∉ front.map key)
    (hthere : ∀ u ∈ us, u.1 ∈ l.map key) (hkeeps : Keeps key us) :
    upsertAll key new (front ++ l) us = front ++ upsertAll key new l us := by
  induction us generalizing l with
  | nil => rfl
  | cons u us ih =>
      rw [List.forall_mem_cons] at hother hthere
      have hfirst : ∀ e, key (u.2 e) = key e := hkeeps u List.mem_cons_self
      have hrest : Keeps key us := fun v hv => hkeeps v (List.mem_cons_of_mem _ hv)
      have hput : upsert key new (front ++ l) u = front ++ upsert key new l u := by
        have hboth : u.1 ∈ (front ++ l).map key := by
          rw [List.map_append]
          exact List.mem_append_right _ hthere.1
        have hfront : (front.map fun e => if key e = u.1 then u.2 e else e) = front := by
          refine map_eq_self fun e he => ?_
          have hne : key e ≠ u.1 := fun heq => hother.1 (heq ▸ List.mem_map_of_mem he)
          exact if_neg hne
        unfold upsert
        rw [if_pos hboth, if_pos hthere.1, List.map_append, hfront]
      rw [upsertAll_cons, upsertAll_cons, hput, ih hother.2]
      · intro v hv
        have hv' : v.1 ∈ l.map key := hthere.2 v hv
        unfold upsert
        rw [if_pos hthere.1, List.map_map]
        obtain ⟨e, he, hkey⟩ := List.mem_map.mp hv'
        refine List.mem_map.mpr ⟨e, he, ?_⟩
        dsimp only [Function.comp_apply]
        split
        · rw [hfirst, hkey]
        · exact hkey
      · exact hrest

/-- **A later pass** over the same keys changes each entry once. -/
theorem upsertAll_map {ts : List τ} {k : τ → κ} {e : τ → E} {f : τ → E → E}
    (hkeeps : ∀ t ∈ ts, ∀ e, key (f t e) = key e) (hkey : ∀ t ∈ ts, key (e t) = k t)
    (hnodup : (ts.map k).Nodup) :
    upsertAll key new (ts.map e) (ts.map fun t => (k t, f t)) = ts.map fun t => f t (e t) := by
  induction ts with
  | nil => rfl
  | cons t ts ih =>
      rw [List.map_cons, List.nodup_cons] at hnodup
      rw [List.forall_mem_cons] at hkeeps hkey
      have hkeys : ∀ s ∈ ts, key (e s) ≠ k t := by
        intro s hs heq
        exact hnodup.1 (heq ▸ hkey.2 s hs ▸ List.mem_map_of_mem hs)
      have hput : upsert key new (e t :: ts.map e) (k t, f t) = f t (e t) :: ts.map e := by
        have hrest : ((ts.map e).map fun d => if key d = k t then f t d else d) = ts.map e := by
          refine map_eq_self fun d hd => ?_
          obtain ⟨s, hs, rfl⟩ := List.mem_map.mp hd
          exact if_neg (hkeys s hs)
        unfold upsert
        rw [if_pos (by simp [hkey.1]), List.map_cons, if_pos hkey.1, hrest]
      rw [List.map_cons, List.map_cons, List.map_cons, upsertAll_cons, hput,
        ← List.singleton_append, upsertAll_other, ih hkeeps.2 hkey.2 hnodup.2]
      · rfl
      · intro u hu
        obtain ⟨s, hs, rfl⟩ := List.mem_map.mp hu
        have hne : k s ≠ k t := fun heq => hnodup.1 (heq ▸ List.mem_map_of_mem hs)
        simpa [hkeeps.1, hkey.1] using hne
      · intro u hu
        obtain ⟨s, hs, rfl⟩ := List.mem_map.mp hu
        rw [List.map_map]
        exact List.mem_map.mpr ⟨s, hs, hkey.2 s hs⟩
      · intro u hu
        obtain ⟨s, hs, rfl⟩ := List.mem_map.mp hu
        exact hkeeps.2 s hs

/-! ## Keys -/

/-- The keys come from what was there and from the upserts, in this order. -/
theorem keys_upsertAll_sublist (hnew : ∀ k, key (new k) = k) (hkeeps : Keeps key us) :
    List.Sublist ((upsertAll key new l us).map key) (l.map key ++ us.map (·.1)) := by
  induction us generalizing l with
  | nil => simp
  | cons u us ih =>
      have hfirst : ∀ e, key (u.2 e) = key e := hkeeps u List.mem_cons_self
      have hrest : Keeps key us := fun v hv => hkeeps v (List.mem_cons_of_mem _ hv)
      refine (ih hrest (l := upsert key new l u)).trans ?_
      rw [keys_upsert hnew hfirst, List.map_cons]
      split
      · exact (List.Sublist.refl _).append (List.sublist_cons_self _ _)
      · rw [List.append_assoc, List.singleton_append]

/-- The keys afterwards are the old ones and those of the changes. -/
theorem mem_keys_upsertAll (hnew : ∀ k, key (new k) = k) (hkeeps : Keeps key us) :
    k ∈ (upsertAll key new l us).map key ↔ k ∈ l.map key ∨ k ∈ us.map (·.1) := by
  induction us generalizing l with
  | nil => simp
  | cons u us ih =>
      have hfirst : ∀ e, key (u.2 e) = key e := hkeeps u List.mem_cons_self
      have hrest : Keeps key us := fun v hv => hkeeps v (List.mem_cons_of_mem _ hv)
      rw [upsertAll_cons, ih hrest, keys_upsert hnew hfirst, List.map_cons, List.mem_cons]
      split
      · next hmem =>
          constructor
          · rintro (hold | hlater)
            · exact .inl hold
            · exact .inr (.inr hlater)
          · rintro (hold | rfl | hlater)
            · exact .inl hold
            · exact .inl hmem
            · exact .inr hlater
      · rw [List.mem_append, List.mem_singleton, or_assoc]

/-- Upserts of keys that are there add none. -/
theorem keys_upsertAll_of_mem (hnew : ∀ k, key (new k) = k) (hkeeps : Keeps key us)
    (hmem : ∀ u ∈ us, u.1 ∈ l.map key) : (upsertAll key new l us).map key = l.map key := by
  induction us generalizing l with
  | nil => rfl
  | cons u us ih =>
      have hfirst : ∀ e, key (u.2 e) = key e := hkeeps u List.mem_cons_self
      have hrest : Keeps key us := fun v hv => hkeeps v (List.mem_cons_of_mem _ hv)
      rw [List.forall_mem_cons] at hmem
      have hkeys : (upsert key new l u).map key = l.map key := by
        rw [keys_upsert hnew hfirst, if_pos hmem.1]
      rw [upsertAll_cons, ih hrest, hkeys]
      intro v hv
      rw [hkeys]
      exact hmem.2 v hv

/-- A list of distinct keys is known by its keys and what it has under each. -/
theorem eq_of_find {l m : List E} (hkeys : l.map key = m.map key) (hnodup : (m.map key).Nodup)
    (hfind : ∀ k ∈ m.map key, find key k l = find key k m) : l = m := by
  induction m generalizing l with
  | nil => simpa using hkeys
  | cons e m ih =>
      cases l with
      | nil => simp at hkeys
      | cons d l =>
          rw [List.map_cons, List.map_cons, List.cons.injEq] at hkeys
          rw [List.map_cons, List.nodup_cons] at hnodup
          have hd : d = e := by
            have hfirst := hfind (key e) (by simp)
            simpa [find, hkeys.1] using hfirst
          subst hd
          congr 1
          refine ih hkeys.2 hnodup.2 fun k hk => ?_
          have hne : key d ≠ k := fun heq => hnodup.1 (heq ▸ hk)
          have hrest := hfind k (List.mem_cons_of_mem _ hk)
          simpa [find, hne] using hrest

/-- Upserts keep keys distinct. -/
theorem nodup_upsertAll (hnew : ∀ k, key (new k) = k) (hkeeps : Keeps key us)
    (hnodup : (l.map key).Nodup) : ((upsertAll key new l us).map key).Nodup := by
  induction us generalizing l with
  | nil => exact hnodup
  | cons u us ih =>
      obtain ⟨hfirst, hrest⟩ := List.forall_mem_cons.mp hkeeps
      rw [upsertAll_cons]
      apply ih hrest
      rw [keys_upsert hnew hfirst]
      split
      · exact hnodup
      · next hfresh =>
          rw [← List.concat_eq_append]
          exact (List.nodup_concat _ _).mpr ⟨hfresh, hnodup⟩

/-- Where keys are distinct, a key has the entry that is found under it and no other. -/
theorem filter_key_eq (hnodup : (l.map key).Nodup) (k : κ) :
    l.filter (key · = k) = (find key k l).toList := by
  induction l with
  | nil => rfl
  | cons e l ih =>
      rw [List.map_cons, List.nodup_cons] at hnodup
      by_cases he : key e = k
      · have hnone : l.filter (key · = k) = [] := by
          rw [List.filter_eq_nil_iff]
          intro d hd heq
          have hsame : key d = key e := by rw [he]; simpa using heq
          exact hnodup.1 (hsame ▸ List.mem_map_of_mem hd)
        rw [List.filter_cons_of_pos (by simpa using he), hnone]
        simp [find, he]
      · rw [List.filter_cons_of_neg (by simpa using he), ih hnodup.2]
        simp [find, he]

/-- Entries looked up in the order of their keys are the list. -/
theorem filterMap_find (hnodup : (l.map key).Nodup) :
    (l.map key).filterMap (fun k => find key k l) = l := by
  have hfound : ∀ e ∈ l, find key (key e) l = some e := by
    intro e he
    have hmem : e ∈ (find key (key e) l).toList := by
      rw [← filter_key_eq hnodup]
      simpa using he
    simpa using hmem
  rw [List.filterMap_map]
  exact (List.filterMap_congr hfound).trans List.filterMap_some

/-- A list that keeps all of its places under a partial map was mapped everywhere. -/
theorem eq_some_of_sublist {α β : Type} {g : α → Option β} {h : α → β} {xs : List α}
    (hsub : List.Sublist (xs.map h) (xs.filterMap g)) : ∀ x ∈ xs, g x = some (h x) := by
  have hlength : (xs.filterMap g).length = (xs.map h).length :=
    Nat.le_antisymm (by simpa using List.length_filterMap_le g xs) hsub.length_le
  have heq : xs.filterMap g = xs.map h := (hsub.eq_of_length hlength.symm).symm
  clear hsub hlength
  induction xs with
  | nil => simp
  | cons x xs ih =>
      rw [List.forall_mem_cons]
      cases hx : g x with
      | none =>
          rw [List.filterMap_cons_none hx] at heq
          have hlength := congrArg List.length heq
          have hle := List.length_filterMap_le g xs
          simp only [List.length_map, List.length_cons] at hlength
          omega
      | some y =>
          rw [List.filterMap_cons_some hx, List.map_cons, List.cons.injEq] at heq
          exact ⟨by rw [heq.1], ih heq.2⟩

end Upserts
