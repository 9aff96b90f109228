import Mathlib.Data.List.Basic
import Mathlib.Data.List.TakeWhile
/-!
# Fields of a text

The stretches of a text between separators, empty ones left out: what splitting at blanks
gives.  Fields put together again with separators between them are the fields of the whole.
-/

namespace Fields

variable {α : Type} {sep : α → Bool}

def fields (sep : α → Bool) (text : List α) : List (List α) :=
  (text.splitOnP sep).filter (!·.isEmpty)

@[simp] theorem fields_nil : fields sep [] = [] := rfl

/-- A text without separators is one field. -/
theorem fields_of_free {word : List α} (h : ∀ c ∈ word, sep c = false) (hne : word ≠ []) :
    fields sep word = [word] := by
  rw [fields, List.splitOnP_eq_singleton h]
  simpa using hne

/-- A separator parts the fields of what stands on its two sides. -/
theorem fields_append_cons {c : α} (h : sep c = true) (before rest : List α) :
    fields sep (before ++ c :: rest) = fields sep before ++ fields sep rest := by
  rw [fields, List.splitOnP_append_cons before rest h, List.filter_append, fields, fields]

theorem fields_cons {c : α} (h : sep c = true) (rest : List α) :
    fields sep (c :: rest) = fields sep rest :=
  fields_append_cons h [] rest

/-- A field that ends where the text ends or a separator stands. -/
theorem fields_append {word rest : List α} (h : ∀ c ∈ word, sep c = false) (hne : word ≠ [])
    (hrest : ∀ c ∈ rest.head?, sep c = true) : fields sep (word ++ rest) = word :: fields sep rest := by
  cases rest with
  | nil => simp [fields_of_free h hne]
  | cons c rest =>
      have hc : sep c = true := hrest c rfl
      rw [fields_append_cons hc, fields_of_free h hne, fields_cons hc, List.singleton_append]

/-- What a text starts with up to its first separator belongs to the first field. -/
theorem fields_glue {front rest : List α} (h : ∀ c ∈ front, sep c = false) (hne : front ≠ []) :
    fields sep (front ++ rest) =
      (front ++ rest.takeWhile (!sep ·)) :: fields sep (rest.dropWhile (!sep ·)) := by
  have hsplit : front ++ rest =
      (front ++ rest.takeWhile (!sep ·)) ++ rest.dropWhile (!sep ·) := by
    rw [List.append_assoc, List.takeWhile_append_dropWhile]
  have hfront : ∀ c ∈ front ++ rest.takeWhile (!sep ·), sep c = false := by
    intro c hc
    rcases List.mem_append.mp hc with hc | hc
    · exact h c hc
    · simpa using List.mem_takeWhile_imp hc
  have hback : ∀ c ∈ (rest.dropWhile (!sep ·)).head?, sep c = true := by
    intro c hc
    have hnot := List.head?_dropWhile_not (!sep ·) rest
    rw [hc] at hnot
    simpa using hnot
  rw [hsplit, fields_append hfront (by simp [hne]) hback]

/-- Joined texts have the fields of each. -/
theorem fields_join {c : α} (hc : sep c = true) (texts : List (List α)) :
    fields sep ([c].intercalate texts) = texts.flatMap (fields sep) := by
  induction texts with
  | nil => rfl
  | cons text rest ih =>
      cases rest with
      | nil => simp
      | cons next rest =>
          rw [List.intercalate_cons_cons, List.append_assoc, List.singleton_append,
            fields_append_cons hc, ih]
          rfl

/-- Fields put together with a separator are found again. -/
theorem fields_intercalate {c : α} (hc : sep c = true) {words : List (List α)}
    (hfree : ∀ word ∈ words, ∀ d ∈ word, sep d = false) (hne : ∀ word ∈ words, word ≠ []) :
    fields sep ([c].intercalate words) = words := by
  rw [fields_join hc]
  induction words with
  | nil => rfl
  | cons word rest ih =>
      rw [List.forall_mem_cons] at hfree hne
      rw [List.flatMap_cons, fields_of_free hfree.1 hne.1, ih hfree.2 hne.2,
        List.singleton_append]

/-- What stands in a text that was put together stands in a part of it. -/
theorem mem_intercalate {c : α} {gap : List α} {words : List (List α)}
    (h : c ∈ gap.intercalate words) : c ∈ gap ∨ ∃ word ∈ words, c ∈ word := by
  induction words with
  | nil => cases h
  | cons word rest ih =>
      cases rest with
      | nil =>
          rw [List.intercalate_singleton] at h
          exact .inr ⟨word, List.mem_cons_self, h⟩
      | cons next rest =>
          rw [List.intercalate_cons_cons, List.mem_append, List.mem_append] at h
          rcases h with (hword | hgap) | hrest
          · exact .inr ⟨word, List.mem_cons_self, hword⟩
          · exact .inl hgap
          · rcases ih hrest with hgap | ⟨found, hfound, hc⟩
            · exact .inl hgap
            · exact .inr ⟨found, List.mem_cons_of_mem _ hfound, hc⟩

/-- A text put together from fields does not end in a separator. -/
theorem getLast_intercalate {gap : List α} {words : List (List α)}
    (hfree : ∀ word ∈ words, ∀ d ∈ word, sep d = false) (hne : ∀ word ∈ words, word ≠ []) :
    ∀ c ∈ (gap.intercalate words).getLast?, sep c = false := by
  induction words with
  | nil => intro c hc; cases hc
  | cons word rest ih =>
      rw [List.forall_mem_cons] at hfree hne
      cases rest with
      | nil =>
          rw [List.intercalate_singleton]
          intro c hc
          exact hfree.1 c (List.mem_of_getLast? hc)
      | cons next rest =>
          have hjoin : gap.intercalate (next :: rest) ≠ [] := by
            have hnext : next ≠ [] := hne.2 next List.mem_cons_self
            cases rest with
            | nil => rwa [List.intercalate_singleton]
            | cons third rest => simp [List.intercalate_cons_cons, hnext]
          rw [List.intercalate_cons_cons, List.getLast?_append_of_ne_nil _ hjoin]
          exact ih hfree.2 hne.2

/-- Separators at the front are passed over. -/
theorem fields_dropWhile (text : List α) : fields sep (text.dropWhile sep) = fields sep text := by
  induction text with
  | nil => rfl
  | cons c rest ih =>
      cases hc : sep c with
      | false => rw [List.dropWhile_cons_of_neg (by simp [hc])]
      | true => rw [List.dropWhile_cons_of_pos hc, ih, fields_cons hc]

/-- Separators at the end add no field. -/
theorem fields_append_sep {gap : List α} (h : ∀ c ∈ gap, sep c = true) (text : List α) :
    fields sep (text ++ gap) = fields sep text := by
  induction gap with
  | nil => rw [List.append_nil]
  | cons c rest ih =>
      rw [List.forall_mem_cons] at h
      have hgap : fields sep rest = [] := by
        have hdrop : fields sep (rest.dropWhile sep) = fields sep rest := fields_dropWhile rest
        rwa [List.dropWhile_eq_nil_iff.mpr h.2, fields_nil, eq_comm] at hdrop
      rw [fields_append_cons h.1, hgap, List.append_nil]

/-- What is no separator stands in one of the pieces. -/
theorem exists_piece {c : α} {text : List α} (h : sep c = false) (hc : c ∈ text) :
    ∃ piece ∈ text.splitOnP sep, c ∈ piece := by
  induction text with
  | nil => cases hc
  | cons d rest ih =>
      obtain ⟨first, others, hsplit⟩ := List.exists_cons_of_ne_nil (List.splitOnP_ne_nil sep rest)
      rw [List.splitOnP_cons_eq_if_modifyHead]
      rcases List.mem_cons.mp hc with rfl | hrest
      · rw [if_neg (by simp [h]), hsplit]
        exact ⟨c :: first, List.mem_cons_self, List.mem_cons_self⟩
      · obtain ⟨piece, hpiece, hmem⟩ := ih hrest
        split
        · exact ⟨piece, List.mem_cons_of_mem _ hpiece, hmem⟩
        · rw [hsplit] at hpiece ⊢
          rcases List.mem_cons.mp hpiece with rfl | hother
          · exact ⟨d :: piece, List.mem_cons_self, List.mem_cons_of_mem _ hmem⟩
          · exact ⟨piece, List.mem_cons_of_mem _ hother, hmem⟩

end Fields
