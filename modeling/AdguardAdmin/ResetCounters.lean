import Mathlib
/-!
# Counters that start over

A counter grows, and from time to time it is set back to zero.  Whoever reads it now and then
takes the difference of two readings for what was counted between them, or the second reading
alone when it is the smaller one.

* `increase_le` — never more than what was counted;
* `increase_eq_iff` — when it is all of it.
-/

namespace ResetCounters

variable {K : Type}

inductive Event (K : Type) where
  | grow (n : K)
  | reset
  deriving DecidableEq, Repr

variable {c before : K} {events pre post : List (Event K)}

/-- Events with a reset have a last one. -/
theorem exists_last_reset (h : Event.reset ∈ events) :
    ∃ pre post, events = pre ++ .reset :: post ∧ Event.reset ∉ post := by
  induction events with
  | nil => exact absurd h List.not_mem_nil
  | cons e rest ih =>
      by_cases hrest : Event.reset ∈ rest
      · obtain ⟨pre, post, rfl, hpost⟩ := ih hrest
        exact ⟨e :: pre, post, rfl, hpost⟩
      · obtain rfl : Event.reset = e := (List.mem_cons.mp h).resolve_right hrest
        exact ⟨[], rest, rfl, hrest⟩

/-- Every reset comes at the last one or before it. -/
theorem prefix_of_last_reset {pre' post' : List (Event K)} (hpost : Event.reset ∉ post)
    (heq : pre ++ .reset :: post = pre' ++ .reset :: post') : ∃ mid, pre = pre' ++ mid := by
  rcases List.append_eq_append_iff.mp heq with ⟨mid, hpre', htail⟩ | ⟨mid, hpre, -⟩
  · cases mid with
    | nil => exact ⟨[], by rw [hpre', List.append_nil, List.append_nil]⟩
    | cons e mid =>
        obtain ⟨-, htail⟩ := List.cons.inj htail
        exact absurd (htail ▸ List.mem_append_right _ List.mem_cons_self) hpost
  · exact ⟨mid, hpre⟩

section Values

variable [Field K]

def Event.amount : Event K → K
  | .grow n => n
  | .reset => 0

/-- What the counter shows after an event. -/
def shown (c : K) : Event K → K
  | .grow n => c + n
  | .reset => 0

/-- What the counter shows after some events. -/
def value (c : K) (events : List (Event K)) : K := events.foldl shown c

/-- What was counted. -/
def counted (events : List (Event K)) : K := (events.map Event.amount).sum

@[simp] theorem counted_append :
    counted (pre ++ post) = counted pre + counted post := by
  rw [counted, List.map_append, List.sum_append]
  rfl

@[simp] theorem value_append : value c (pre ++ post) = value (value c pre) post :=
  List.foldl_append

/-- Without a reset a counter has counted its value. -/
theorem value_of_no_reset (h : Event.reset ∉ events) : value c events = c + counted events := by
  induction events generalizing c with
  | nil => exact (add_zero c).symm
  | cons e rest ih =>
      obtain ⟨he, hrest⟩ := not_or.mp fun hmem => h (List.mem_cons.mpr hmem)
      cases e with
      | grow n =>
          calc value c (.grow n :: rest) = c + n + counted rest := ih hrest
            _ = c + counted (.grow n :: rest) := add_assoc c n _
      | reset => exact absurd rfl he

/-- After the last reset the counter shows what was counted since. -/
theorem value_of_reset (h : Event.reset ∉ post) :
    value c (pre ++ .reset :: post) = counted post := by
  rw [value_append]
  exact (value_of_no_reset h).trans (zero_add _)

theorem counted_of_reset : counted (pre ++ .reset :: post) = counted pre + counted post := by
  rw [counted_append]
  exact congrArg (counted pre + ·) (zero_add _)

end Values

section Readings

variable [Field K] [LinearOrder K] [IsStrictOrderedRing K]

/-- A counter never counts downwards. -/
def Event.Proper : Event K → Prop
  | .grow n => 0 ≤ n
  | .reset => True

/-- What two readings are taken for. -/
def increase (before current : K) : K := if before ≤ current then current - before else current

/-- A count is not negative. -/
theorem counted_nonneg (h : ∀ e ∈ events, e.Proper) : 0 ≤ counted events := by
  refine List.sum_nonneg fun n hn => ?_
  obtain ⟨e, he, rfl⟩ := List.mem_map.mp hn
  have hproper := h e he
  cases e with
  | grow n => exact hproper
  | reset => exact le_refl _

/-- No reset came between, or one that hid nothing: nothing was counted up to it, and the old
reading is zero or is not reached again. -/
def Seen (before : K) (events : List (Event K)) : Prop :=
  ∀ pre post, events = pre ++ .reset :: post →
    counted pre = 0 ∧ (before = 0 ∨ value before events < before)

/-- **Two readings never show more than was counted.** -/
theorem increase_le (hbefore : 0 ≤ before) (h : ∀ e ∈ events, e.Proper) :
    increase before (value before events) ≤ counted events := by
  by_cases hreset : Event.reset ∈ events
  · obtain ⟨pre, post, rfl, hpost⟩ := exists_last_reset hreset
    have hpre : 0 ≤ counted pre := counted_nonneg fun e he => h e (List.mem_append_left _ he)
    rw [value_of_reset hpost, counted_of_reset, increase]
    split <;> linarith
  · have hnonneg := counted_nonneg h
    rw [value_of_no_reset hreset, increase, if_pos (by linarith)]
    linarith

/-- **When two readings show all that was counted.** -/
theorem increase_eq_iff (hbefore : 0 ≤ before) (h : ∀ e ∈ events, e.Proper) :
    increase before (value before events) = counted events ↔ Seen before events := by
  by_cases hreset : Event.reset ∈ events
  · obtain ⟨pre, post, rfl, hpost⟩ := exists_last_reset hreset
    have hpre : 0 ≤ counted pre := counted_nonneg fun e he => h e (List.mem_append_left _ he)
    have hiff : increase before (counted post) = counted pre + counted post ↔
        counted pre = 0 ∧ (before = 0 ∨ counted post < before) := by
      unfold increase
      split
      · next hle =>
          constructor
          · intro heq
            exact ⟨by linarith, .inl (by linarith)⟩
          · rintro ⟨hzero, hor⟩
            have hb : before = 0 := hor.resolve_right (not_lt.mpr hle)
            rw [hzero, hb]
            ring
      · next hlt =>
          constructor
          · intro heq
            exact ⟨by linarith, .inr (not_le.mp hlt)⟩
          · rintro ⟨hzero, -⟩
            rw [hzero, zero_add]
    rw [value_of_reset hpost, counted_of_reset, hiff]
    constructor
    · rintro ⟨hzero, hor⟩ pre' post' heq
      refine ⟨?_, by rwa [value_of_reset hpost]⟩
      obtain ⟨mid, hpre'⟩ := prefix_of_last_reset hpost heq
      have hleft : 0 ≤ counted pre' :=
        counted_nonneg fun e he => h e (heq ▸ List.mem_append_left _ he)
      have hmid : 0 ≤ counted mid := counted_nonneg fun e he =>
        h e (List.mem_append_left _ (hpre' ▸ List.mem_append_right _ he))
      rw [hpre', counted_append] at hzero
      linarith
    · intro hseen
      have hlast := hseen pre post rfl
      rwa [value_of_reset hpost] at hlast
  · have hnonneg := counted_nonneg h
    rw [value_of_no_reset hreset, increase, if_pos (by linarith)]
    refine ⟨fun _ pre post heq => ?_, fun _ => by ring⟩
    exact absurd (heq ▸ List.mem_append_right pre List.mem_cons_self) hreset

end Readings

end ResetCounters
