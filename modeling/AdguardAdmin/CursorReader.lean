import AdguardAdmin.Upserts
/-!
# Reading a printed table under a cursor

A table is printed section by section: a row that heads the section, then a row for each
of its entries.  The reader keeps a cursor on the block that the last head opened and puts
every entry there.  A head that it does not know leaves the cursor where it is, and the
entries behind it go to the block of the section before.

* `scan_sections` — each block gets the entries of its own section and of the unknown
  sections behind it;
* `gathered_rekey` — the same for heads of which a reader knows only some.
-/

namespace CursorReader

open Upserts

variable {κ ρ ι E : Type} [DecidableEq κ] [DecidableEq ι]

/-- What an entry row does: it changes the entry of its name. -/
abbrev Change (ι E : Type) := ι × (E → E)

inductive Row (κ ι E : Type) where
  | opens (k : κ)
  | closes
  | entry (change : Change ι E)
  | other

structure Block (κ E : Type) where
  key : κ
  entries : List E
  deriving DecidableEq, Repr

structure State (κ E : Type) where
  blocks : List (Block κ E)
  cur : Option κ
  deriving DecidableEq, Repr

def emptyBlock (k : κ) : Block κ E := ⟨k, []⟩

section

variable (name : E → ι) (new : ι → E)

/-- Entries merged into a block. -/
def merge (changes : List (Change ι E)) (b : Block κ E) : Block κ E :=
  { b with entries := upsertAll name new b.entries changes }

def step (s : State κ E) : Row κ ι E → State κ E
  | .opens k => ⟨upsert Block.key emptyBlock s.blocks (k, id), some k⟩
  | .closes => { s with cur := none }
  | .entry change =>
      match s.cur with
      | none => s
      | some k => { s with
          blocks := upsert Block.key emptyBlock s.blocks (k, merge name new [change]) }
  | .other => s

def scan (s : State κ E) (rows : List (Row κ ι E)) : State κ E := rows.foldl (step name new) s

end

/-! ## Sections -/

inductive Head (κ : Type) where
  | opens (k : κ)
  | closes
  | unknown

/-- A head and what is printed in the rows behind it. -/
structure Section (κ ρ : Type) where
  head : Head κ
  body : List ρ

def Head.row : Head κ → Row κ ι E
  | .opens k => .opens k
  | .closes => .closes
  | .unknown => .other

/-- An entry row that is not understood does nothing. -/
def entryRow (change : ρ → Option (Change ι E)) (r : ρ) : Row κ ι E :=
  match change r with
  | some c => .entry c
  | none => .other

def Section.rows (change : ρ → Option (Change ι E)) (s : Section κ ρ) : List (Row κ ι E) :=
  s.head.row :: s.body.map (entryRow change)

/-- The entries of the unknown sections that come first. -/
def behind : List (Section κ ρ) → List ρ
  | [] => []
  | s :: rest =>
      match s.head with
      | .unknown => s.body ++ behind rest
      | _ => []

/-- What is put into a block: its own entries and those of unknown sections behind it. -/
structure Gathered (κ ρ : Type) where
  key : κ
  own : List ρ
  behind : List ρ

def gathered : List (Section κ ρ) → List (Gathered κ ρ)
  | [] => []
  | s :: rest =>
      match s.head with
      | .opens k => ⟨k, s.body, behind rest⟩ :: gathered rest
      | _ => gathered rest

/-- All the entries of a block, in the order in which they are read. -/
def Gathered.all (g : Gathered κ ρ) : List ρ := g.own ++ g.behind

section Reading

variable {name : E → ι} {new : ι → E} {change : ρ → Option (Change ι E)}

omit [DecidableEq κ] in
@[simp] theorem merge_key (changes : List (Change ι E)) (b : Block κ E) :
    (merge name new changes b).key = b.key := rfl

omit [DecidableEq κ] in
@[simp] theorem merge_nil : (merge name new [] : Block κ E → Block κ E) = id := rfl

/-- Upserts of one key after the other. -/
theorem upsert_upsert {l : List (Block κ E)} {k : κ} {f g : Block κ E → Block κ E}
    (hf : ∀ b, (f b).key = b.key) :
    upsert Block.key emptyBlock (upsert Block.key emptyBlock l (k, f)) (k, g) =
      upsert Block.key emptyBlock l (k, g ∘ f) := by
  by_cases hk : k ∈ l.map Block.key
  · have hstays : k ∈ (l.map fun b => if b.key = k then f b else b).map Block.key := by
      obtain ⟨b, hb, rfl⟩ := List.mem_map.mp hk
      rw [List.map_map]
      exact List.mem_map.mpr ⟨b, hb, by simp [hf]⟩
    unfold upsert
    rw [if_pos hk, if_pos hstays, if_pos hk, List.map_map]
    refine List.map_congr_left fun b _ => ?_
    by_cases hb : b.key = k <;> simp [hb, hf]
  · have hmade : k ∈ (l ++ [f (emptyBlock k)]).map Block.key := by
      simp [hf, emptyBlock]
    have hsame : (l.map fun b => if b.key = k then g b else b) = l := by
      refine (List.map_congr_left fun b hb => ?_).trans (List.map_id l)
      have hne : b.key ≠ k := fun heq => hk (heq ▸ List.mem_map_of_mem hb)
      exact if_neg hne
    unfold upsert
    rw [if_neg hk, if_pos hmade, if_neg hk, List.map_append, hsame]
    simp [hf, emptyBlock]

/-- An upsert that changes nothing changes nothing where the key is there. -/
theorem upsert_id {l : List (Block κ E)} {k : κ} (hk : k ∈ l.map Block.key) :
    upsert Block.key emptyBlock l (k, id) = l := by
  unfold upsert
  rw [if_pos hk]
  exact (List.map_congr_left fun b _ => ite_self b).trans (List.map_id l)

omit [DecidableEq κ] in
/-- Two runs of changes are one. -/
theorem merge_comp (xs ys : List (Change ι E)) :
    merge name new ys ∘ merge name new xs = (merge name new (xs ++ ys) : Block κ E → Block κ E) := by
  funext b
  simp [merge, upsertAll_append]

/-- The rows of one section under an open block. -/
theorem scan_body {blocks : List (Block κ E)} {k : κ} (hk : k ∈ blocks.map Block.key)
    (body : List ρ) :
    scan name new ⟨blocks, some k⟩ (body.map (entryRow change)) =
      ⟨upsert Block.key emptyBlock blocks (k, merge name new (body.filterMap change)), some k⟩ := by
  induction body generalizing blocks with
  | nil =>
      rw [List.filterMap_nil, merge_nil, upsert_id hk]
      rfl
  | cons r body ih =>
      rw [List.map_cons, entryRow]
      cases hr : change r with
      | none =>
          rw [List.filterMap_cons_none hr]
          exact ih hk
      | some c =>
          have hstays : k ∈ (upsert Block.key emptyBlock blocks
              (k, merge name new [c])).map Block.key := by
            rw [keys_upsert (fun _ => rfl) fun _ => rfl, if_pos hk]
            exact hk
          rw [List.filterMap_cons_some hr, ← List.singleton_append (l := body.filterMap change),
            ← merge_comp, ← upsert_upsert (merge_key [c])]
          exact ih hstays

/-- Without an open block the rows of a section go nowhere. -/
theorem scan_body_none (blocks : List (Block κ E)) (body : List ρ) :
    scan name new ⟨blocks, none⟩ (body.map (entryRow change)) = ⟨blocks, none⟩ := by
  induction body with
  | nil => rfl
  | cons r body ih =>
      rw [List.map_cons, entryRow]
      cases change r with
      | none => exact ih
      | some c => exact ih

/-- The blocks once the unknown sections that come first are read. -/
def pending (name : E → ι) (new : ι → E) (change : ρ → Option (Change ι E)) (s : State κ E)
    (sections : List (Section κ ρ)) : List (Block κ E) :=
  match s.cur with
  | none => s.blocks
  | some k => upsert Block.key emptyBlock s.blocks
      (k, merge name new ((behind sections).filterMap change))

/-- **What a reader makes of a table.**  Each block gets the entries of its section and of
the unknown sections behind it. -/
theorem scan_sections {s : State κ E} (hcur : ∀ k ∈ s.cur, k ∈ s.blocks.map Block.key)
    (sections : List (Section κ ρ)) :
    (scan name new s (sections.flatMap (Section.rows change))).blocks =
      upsertAll Block.key emptyBlock (pending name new change s sections)
        ((gathered sections).map fun g => (g.key, merge name new (g.all.filterMap change))) := by
  induction sections generalizing s with
  | nil =>
      cases hs : s.cur with
      | none => simp [scan, pending, gathered, hs]
      | some k => simp [scan, pending, gathered, behind, hs, upsert_id (hcur k hs)]
  | cons first rest ih =>
      obtain ⟨head, body⟩ := first
      have hsplit : scan name new s ((⟨head, body⟩ :: rest).flatMap (Section.rows change)) =
          scan name new (scan name new (step name new s head.row) (body.map (entryRow change)))
            (rest.flatMap (Section.rows change)) := by
        simp [scan, Section.rows]
      rw [hsplit]
      cases head with
      | opens k =>
          have hopened : k ∈ (upsert Block.key emptyBlock s.blocks (k, id)).map Block.key := by
            rw [keys_upsert (fun _ => rfl) fun _ => rfl]
            split
            · assumption
            · simp
          have hthere : k ∈ (upsert Block.key emptyBlock
              (upsert Block.key emptyBlock s.blocks (k, id))
              (k, merge name new (body.filterMap change))).map Block.key := by
            rw [keys_upsert (fun _ => rfl) fun _ => rfl, if_pos hopened]
            exact hopened
          have hpending : pending name new change s (⟨.opens k, body⟩ :: rest) = s.blocks := by
            cases hs : s.cur with
            | none => simp [pending, hs]
            | some c => simp [pending, behind, hs, upsert_id (hcur c hs)]
          have hstep : step name new s (Head.opens k).row =
              ⟨upsert Block.key emptyBlock s.blocks (k, id), some k⟩ := rfl
          rw [hpending, hstep, scan_body hopened, ih (by simpa using hthere)]
          simp only [pending, gathered, List.map_cons, upsertAll_cons]
          rw [upsert_upsert (f := id) fun _ => rfl, Function.comp_id,
            upsert_upsert (merge_key _), merge_comp, Gathered.all, List.filterMap_append]
      | closes =>
          have hpending : pending name new change s (⟨.closes, body⟩ :: rest) = s.blocks := by
            cases hs : s.cur with
            | none => simp [pending, hs]
            | some c => simp [pending, behind, hs, upsert_id (hcur c hs)]
          have hstep : step name new s (Head.closes (κ := κ)).row = ⟨s.blocks, none⟩ := rfl
          rw [hpending, hstep, scan_body_none, ih (by simp)]
          rfl
      | unknown =>
          have hstep : step name new s (Head.unknown (κ := κ)).row = s := rfl
          rw [hstep]
          obtain ⟨blocks, cur⟩ := s
          cases cur with
          | none =>
              rw [scan_body_none, ih (by simp)]
              rfl
          | some c =>
              have hc : c ∈ blocks.map Block.key := hcur c rfl
              have hthere : c ∈ (upsert Block.key emptyBlock blocks
                  (c, merge name new (body.filterMap change))).map Block.key := by
                rw [keys_upsert (fun _ => rfl) fun _ => rfl, if_pos hc]
                exact hc
              rw [scan_body hc, ih (by simpa using hthere)]
              simp only [pending, behind, gathered]
              rw [upsert_upsert (merge_key _), merge_comp, List.filterMap_append]

end Reading

/-! ## Sections under other names -/

section Rekeying

variable {κ' : Type} {g : κ → Option κ'}

/-- A section whose head is printed under another name, or under none that is known. -/
def Section.rekey (g : κ → Option κ') (s : Section κ ρ) : Section κ' ρ where
  head :=
    match s.head with
    | .opens k => (g k).elim .closes .opens
    | .closes => .closes
    | .unknown => .unknown
  body := s.body

omit [DecidableEq κ] in
/-- Other names do not matter for what stands before the first head. -/
theorem behind_rekey (sections : List (Section κ ρ)) :
    behind (sections.map (Section.rekey g)) = behind sections := by
  induction sections with
  | nil => rfl
  | cons s rest ih =>
      obtain ⟨head, body⟩ := s
      cases head with
      | opens k =>
          cases hk : g k <;> simp [behind, Section.rekey, hk]
      | closes => rfl
      | unknown =>
          rw [List.map_cons, behind, behind]
          simp only [Section.rekey]
          rw [ih]

omit [DecidableEq κ] in
/-- The blocks that are read are those whose names are known. -/
theorem gathered_rekey (sections : List (Section κ ρ)) :
    gathered (sections.map (Section.rekey g)) =
      (gathered sections).filterMap fun b => (g b.key).map fun k => ⟨k, b.own, b.behind⟩ := by
  induction sections with
  | nil => rfl
  | cons s rest ih =>
      obtain ⟨head, body⟩ := s
      cases head with
      | opens k =>
          cases hk : g k <;> simp [gathered, Section.rekey, hk, ih, behind_rekey]
      | closes => exact ih
      | unknown => exact ih

end Rekeying

end CursorReader
