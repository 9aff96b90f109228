import Mathlib.Data.List.Nodup
import Mathlib.Data.List.Induction
import Mathlib.Data.List.DropRight
import AdguardAdmin.Fields
import AdguardAdmin.IpLiterals
/-!
# Text functions of the control plane's standard library

Python's `str` methods on lists of characters, as far as the control plane uses
them.
-/

namespace PyText

/-- The characters `str.strip` removes. -/
def isSpace (c : Char) : Bool :=
  (0x09 ≤ c.toNat ∧ c.toNat ≤ 0x0d) ∨ (0x1c ≤ c.toNat ∧ c.toNat ≤ 0x20) ∨
    c.toNat = 0x85 ∨ c.toNat = 0xa0 ∨ c.toNat = 0x1680 ∨
    (0x2000 ≤ c.toNat ∧ c.toNat ≤ 0x200a) ∨ c.toNat = 0x2028 ∨ c.toNat = 0x2029 ∨
    c.toNat = 0x202f ∨ c.toNat = 0x205f ∨ c.toNat = 0x3000

/-- Drop matching characters at the end. -/
def rstripBy (p : Char → Bool) (cs : List Char) : List Char :=
  (cs.reverse.dropWhile p).reverse

/-- Drop matching characters at both ends. -/
def stripBy (p : Char → Bool) (cs : List Char) : List Char :=
  rstripBy p (cs.dropWhile p)

def strip (s : String) : String := String.ofList (stripBy isSpace s.toList)

/-- The words of a text between runs of blanks and commas. -/
def words (s : String) : List String :=
  ((s.toList.splitOnP fun c => c = ',' || isSpace c).filter (· ≠ [])).map String.ofList

/-- `str.split` without a separator. -/
def split (s : String) : List String := (Fields.fields isSpace s.toList).map String.ofList

/-- The code points of the decimal digits zero. -/
def zeroDigits : List Nat :=
  [0x30, 0x660, 0x6f0, 0x7c0, 0x966, 0x9e6, 0xa66, 0xae6, 0xb66, 0xbe6, 0xc66, 0xce6, 0xd66,
    0xde6, 0xe50, 0xed0, 0xf20, 0x1040, 0x1090, 0x17e0, 0x1810, 0x1946, 0x19d0, 0x1a80, 0x1a90,
    0x1b50, 0x1bb0, 0x1c40, 0x1c50, 0xa620, 0xa8d0, 0xa900, 0xa9d0, 0xa9f0, 0xaa50, 0xabf0,
    0xff10, 0x104a0, 0x10d30, 0x10d40, 0x11066, 0x110f0, 0x11136, 0x111d0, 0x112f0, 0x11450,
    0x114d0, 0x11650, 0x116c0, 0x116d0, 0x116da, 0x11730, 0x118e0, 0x11950, 0x11bf0, 0x11c50,
    0x11d50, 0x11da0, 0x11f50, 0x16a60, 0x16ac0, 0x16b50, 0x16d70, 0x1ccf0, 0x1d7ce, 0x1d7d8,
    0x1d7e2, 0x1d7ec, 0x1d7f6, 0x1e140, 0x1e2f0, 0x1e4f0, 0x1e5f1, 0x1e950, 0x1fbf0]

def decimalDigit? (c : Char) : Option Nat :=
  (zeroDigits.find? fun first => first ≤ c.toNat ∧ c.toNat < first + 10).map (c.toNat - ·)

/-- Digits, with single underscores between them; at most 4300 digits. -/
def unsigned? (cs : List Char) : Option Nat :=
  let fields := cs.splitOn '_'
  if [] ∉ fields ∧ fields.flatten.length ≤ 4300 then
    IpLiterals.number? decimalDigit? 10 fields.flatten
  else none

/-- `int` of a text. -/
def int? (s : String) : Option Int :=
  match (strip s).toList with
  | '-' :: ds => (unsigned? ds).map fun n => -Int.ofNat n
  | '+' :: ds => (unsigned? ds).map Int.ofNat
  | ds => (unsigned? ds).map Int.ofNat

/-- With distinct keys, looking one up and being a member are the same. -/
theorem lookup_reverse_eq_some_iff {α β : Type} [BEq α] [LawfulBEq α] {l : List (α × β)}
    (h : (l.map Prod.fst).Nodup) {k : α} {v : β} : l.reverse.lookup k = some v ↔ (k, v) ∈ l := by
  induction l using List.reverseRecOn with
  | nil => simp
  | append_singleton l p ih =>
      obtain ⟨k', v'⟩ := p
      rw [List.map_append, List.nodup_append] at h
      obtain ⟨hl, -, hdisjoint⟩ := h
      rw [List.reverse_append, List.reverse_singleton, List.singleton_append, List.lookup_cons]
      by_cases heq : k = k'
      · subst heq
        have hnew : ∀ w, (k, w) ∉ l := by
          intro w hw
          exact hdisjoint k (List.mem_map.mpr ⟨_, hw, rfl⟩) k (by simp) rfl
        simp [hnew, eq_comm]
      · have hbeq : (k == k') = false := by simpa using heq
        simp [hbeq, heq, ih hl]

/-- Stripping on the right takes characters away only. -/
theorem rstripBy_sublist (p : Char → Bool) (cs : List Char) : (rstripBy p cs).Sublist cs := by
  have h := (List.dropWhile_sublist p (l := cs.reverse)).reverse
  rwa [List.reverse_reverse] at h

theorem stripBy_sublist (p : Char → Bool) (cs : List Char) : (stripBy p cs).Sublist cs :=
  (rstripBy_sublist p _).trans (List.dropWhile_sublist p)

/-- Where no character is to be dropped, all are left. -/
theorem dropWhile_eq_self {p : Char → Bool} {cs : List Char} (h : ∀ c ∈ cs, p c = false) :
    cs.dropWhile p = cs := by
  cases cs with
  | nil => rfl
  | cons c cs => simp [h c List.mem_cons_self]

/-- Where no character is to be stripped, all are left. -/
theorem stripBy_eq_self {p : Char → Bool} {cs : List Char} (h : ∀ c ∈ cs, p c = false) :
    stripBy p cs = cs := by
  have hreverse : ∀ c ∈ cs.reverse, p c = false := fun c hc => h c (List.mem_reverse.mp hc)
  rw [stripBy, rstripBy, dropWhile_eq_self h, dropWhile_eq_self hreverse, List.reverse_reverse]

/-- Only a text without anything else is stripped away. -/
theorem all_of_stripBy_eq_nil {p : Char → Bool} {cs : List Char} (h : stripBy p cs = []) :
    ∀ c ∈ cs, p c = true := by
  have hback : ∀ c ∈ cs.dropWhile p, p c = true := List.rdropWhile_eq_nil_iff.mp h
  refine List.dropWhile_eq_nil_iff.mp ?_
  cases hfront : cs.dropWhile p with
  | nil => rfl
  | cons c rest =>
      have hnot := List.head?_dropWhile_not p cs
      rw [hfront] at hnot hback
      have hkept : p c = false := hnot
      exact absurd (hkept.symm.trans (hback c List.mem_cons_self)) Bool.false_ne_true

/-- What was stripped ends in something that is not stripped. -/
theorem stripBy_stripBy_ne_nil {p : Char → Bool} {cs : List Char} (h : stripBy p cs ≠ []) :
    stripBy p (stripBy p cs) ≠ [] := by
  intro hnil
  have hall := all_of_stripBy_eq_nil hnil
  exact List.rdropWhile_last_not p (cs.dropWhile p) h (hall _ (List.getLast_mem h))

/-- What is left after stripping stays when it is stripped again. -/
theorem strip_strip_ne_empty {s : String} (h : strip s ≠ "") : strip (strip s) ≠ "" := by
  unfold strip at h ⊢
  rw [String.toList_ofList]
  intro hempty
  have hne : stripBy isSpace s.toList ≠ [] := by
    intro hnil
    exact h (by rw [hnil])
  apply stripBy_stripBy_ne_nil hne
  simpa using congrArg String.toList hempty

/-- What was stripped once has nothing left to strip. -/
theorem stripBy_idem (p : Char → Bool) (cs : List Char) :
    stripBy p (stripBy p cs) = stripBy p cs := by
  have hfront : (stripBy p cs).dropWhile p = stripBy p cs := by
    cases hstrip : stripBy p cs with
    | nil => rfl
    | cons c rest =>
        -- the first character of what is left is the first one that is not dropped
        have hprefix : stripBy p cs <+: cs.dropWhile p := List.rdropWhile_prefix p (l := _)
        obtain ⟨tail, htail⟩ := hprefix
        rw [hstrip, List.cons_append] at htail
        have hkept := List.head?_dropWhile_not p cs
        rw [← htail] at hkept
        have hc : p c = false := hkept
        simp [hc]
  rw [stripBy, hfront]
  exact List.rdropWhile_idempotent p _

/-- What is stripped off the end. -/
theorem exists_gap_of_rstripBy (p : Char → Bool) (cs : List Char) :
    ∃ gap, cs = rstripBy p cs ++ gap ∧ ∀ c ∈ gap, p c = true := by
  refine ⟨(cs.reverse.takeWhile p).reverse, ?_, ?_⟩
  · have hsplit := List.takeWhile_append_dropWhile (p := p) (l := cs.reverse)
    have hback := congrArg List.reverse hsplit
    rw [List.reverse_append, List.reverse_reverse] at hback
    exact hback.symm
  · intro c hc
    exact List.mem_takeWhile_imp (List.mem_reverse.mp hc)

/-- A text that starts and ends with other characters is not stripped. -/
theorem stripBy_eq_self_of_ends {p : Char → Bool} {cs : List Char}
    (hfirst : ∀ c ∈ cs.head?, p c = false) (hlast : ∀ c ∈ cs.getLast?, p c = false) :
    stripBy p cs = cs := by
  have hfront : cs.dropWhile p = cs := by
    cases cs with
    | nil => rfl
    | cons c rest => exact List.dropWhile_cons_of_neg (by simp [hfirst c rfl])
  have hback : cs.reverse.dropWhile p = cs.reverse := by
    rw [← List.head?_reverse] at hlast
    cases hreverse : cs.reverse with
    | nil => rfl
    | cons c rest =>
        rw [hreverse] at hlast
        exact List.dropWhile_cons_of_neg (by simp [hlast c rfl])
  rw [stripBy, rstripBy, hfront, hback, List.reverse_reverse]

@[simp] theorem strip_strip (s : String) : strip (strip s) = strip s := by
  unfold strip
  rw [String.toList_ofList, stripBy_idem]

/-- Stripping one character takes all copies of it off the end. -/
theorem rstripBy_spec (c : Char) (cs : List Char) :
    ∃ n, cs = rstripBy (· = c) cs ++ List.replicate n c ∧
      (rstripBy (· = c) cs).getLast? ≠ some c := by
  have hcopies : cs.reverse.takeWhile (· = c) =
      List.replicate (cs.reverse.takeWhile (· = c)).length c := by
    refine List.eq_replicate_iff.mpr ⟨rfl, fun d hd => ?_⟩
    simpa using List.mem_takeWhile_imp hd
  refine ⟨(cs.reverse.takeWhile (· = c)).length, ?_, ?_⟩
  · have hsplit := List.takeWhile_append_dropWhile (p := (· = c)) (l := cs.reverse)
    have hback := congrArg List.reverse hsplit
    rw [List.reverse_append, List.reverse_reverse, hcopies, List.reverse_replicate] at hback
    simpa [rstripBy] using hback.symm
  · intro hlast
    rw [rstripBy, List.getLast?_reverse] at hlast
    have hnot := List.head?_dropWhile_not (· = c) cs.reverse
    rw [hlast] at hnot
    simp at hnot

/-! ## Lower case -/

/-- A character stays as it is, or it is a capital letter. -/
theorem toLower_cases (c : Char) : c.toLower = c ∨
    (65 ≤ c.toNat ∧ c.toNat ≤ 90) ∧ c.toLower.toNat = c.toNat + 32 := by
  unfold Char.toLower
  split
  · next h =>
      right
      have hrange : 'A'.toNat ≤ c.toNat ∧ c.toNat ≤ 'Z'.toNat := by
        simpa only [ge_iff_le, UInt32.le_iff_toNat_le, Char.toNat_val] using h
      have hletter : 65 ≤ c.toNat ∧ c.toNat ≤ 90 := hrange
      have hval : c.val.toNat = c.toNat := rfl
      have hshift : (32 : UInt32).toNat = 32 := rfl
      refine ⟨hletter, ?_⟩
      change (c.val + 32).toNat = c.toNat + 32
      rw [UInt32.toNat_add, hval]
      omega
  · exact .inl rfl

/-! ## Pieces of a text -/

section Pieces

variable {α : Type} {sep : α → Bool}

/-- `piece` stands in `text` between separators. -/
def IsPiece (sep : α → Bool) (piece text : List α) : Prop :=
  (∀ c ∈ piece, sep c = false) ∧ ∃ before rest, text = before ++ piece ++ rest ∧
    (∀ c ∈ before.getLast?, sep c = true) ∧ ∀ c ∈ rest.head?, sep c = true

/-- A field stands between separators. -/
theorem isPiece_of_mem {piece text : List α} (h : piece ∈ text.splitOnP sep) :
    IsPiece sep piece text := by
  induction hlen : text.length using Nat.strongRecOn generalizing text with
  | ind n ih =>
      have hfront : ∀ c ∈ text.takeWhile (!sep ·), sep c = false := by
        intro c hc
        simpa using List.mem_takeWhile_imp hc
      have hsplit := List.takeWhile_append_dropWhile (p := (!sep ·)) (l := text)
      cases hback : text.dropWhile (!sep ·) with
      | nil =>
          rw [hback, List.append_nil] at hsplit
          rw [hsplit] at hfront
          rw [List.splitOnP_eq_singleton hfront, List.mem_singleton] at h
          subst h
          exact ⟨hfront, [], [], by simp, by simp, by simp⟩
      | cons d rest =>
          have hd : sep d = true := by
            have hnot := List.head?_dropWhile_not (!sep ·) text
            rw [hback] at hnot
            simpa using hnot
          rw [hback] at hsplit
          rw [← hsplit, List.splitOnP_append_cons_of_forall_mem hfront d hd] at h
          rcases List.mem_cons.mp h with rfl | h
          · exact ⟨hfront, [], d :: rest, by simpa using hsplit.symm, by simp, by simpa using hd⟩
          · have hshorter : rest.length < n := by
              have hlength := congrArg List.length hsplit
              rw [List.length_append, List.length_cons] at hlength
              omega
            obtain ⟨hpiece, before, after, rfl, hbefore, hafter⟩ := ih _ hshorter h rfl
            refine ⟨hpiece, text.takeWhile (!sep ·) ++ d :: before, after, ?_, ?_, hafter⟩
            · refine hsplit.symm.trans ?_
              simp
            · intro c hc
              rw [List.getLast?_append, List.getLast?_cons] at hc
              cases hlast : before.getLast? with
              | none =>
                  obtain rfl : d = c := by simpa [hlast] using hc
                  exact hd
              | some e =>
                  obtain rfl : e = c := by simpa [hlast] using hc
                  exact hbefore e hlast

/-- What stands between separators is a field. -/
theorem mem_of_isPiece {piece text : List α} (h : IsPiece sep piece text) :
    piece ∈ text.splitOnP sep := by
  obtain ⟨hpiece, before, rest, rfl, hbefore, hrest⟩ := h
  have htail : piece ∈ (piece ++ rest).splitOnP sep := by
    cases rest with
    | nil => simp [List.splitOnP_eq_singleton hpiece]
    | cons d rest =>
        rw [List.splitOnP_append_cons_of_forall_mem hpiece d (hrest d rfl)]
        exact List.mem_cons_self
  induction before using List.reverseRecOn with
  | nil => simpa using htail
  | append_singleton front d =>
      have hd : sep d = true := hbefore d (by simp)
      have hsplit := List.splitOnP_append_cons front (piece ++ rest) hd
      rw [show front ++ [d] ++ piece ++ rest = front ++ d :: (piece ++ rest) by simp, hsplit]
      exact List.mem_append_right _ htail

/-- Splitting finds the pieces between separators, and nothing else. -/
theorem mem_splitOnP {piece text : List α} : piece ∈ text.splitOnP sep ↔ IsPiece sep piece text :=
  ⟨isPiece_of_mem, mem_of_isPiece⟩

/-- A word is a field that is not empty. -/
theorem mem_fields {word text : List α} :
    word ∈ Fields.fields sep text ↔ word ≠ [] ∧ IsPiece sep word text := by
  rw [Fields.fields, List.mem_filter, mem_splitOnP, and_comm]
  simp

end Pieces

/-- What stands between two words. -/
def isGap (c : Char) : Bool := c = ',' || isSpace c

/-- The words of a text are its parts between gaps. -/
theorem words_eq (s : String) : words s = (Fields.fields isGap s.toList).map String.ofList := by
  have hempty : (fun piece : List Char => decide (piece ≠ [])) = (!·.isEmpty) := by
    funext piece
    cases piece <;> rfl
  rw [words, Fields.fields, hempty]
  rfl

/-- The words of a text are its pieces between gaps, without the empty ones. -/
theorem mem_words {word text : String} :
    word ∈ words text ↔ word ≠ "" ∧ IsPiece isGap word.toList text.toList := by
  rw [words_eq, List.mem_map]
  constructor
  · rintro ⟨piece, hpiece, rfl⟩
    rw [mem_fields] at hpiece
    rw [String.toList_ofList]
    exact ⟨by simpa using hpiece.1, hpiece.2⟩
  · intro hword
    exact ⟨word.toList, mem_fields.mpr (by simpa using hword), String.ofList_toList⟩

/-- Blanks around a text are in no part. -/
theorem fields_strip (s : String) :
    Fields.fields isSpace (strip s).toList = Fields.fields isSpace s.toList := by
  obtain ⟨gap, hgap, hspaces⟩ := exists_gap_of_rstripBy isSpace (s.toList.dropWhile isSpace)
  rw [← Fields.fields_dropWhile s.toList, hgap, Fields.fields_append_sep hspaces, strip,
    String.toList_ofList, stripBy]

@[simp] theorem split_strip (s : String) : split (strip s) = split s := by
  rw [split, fields_strip, split]

/-- The words of `split` are the parts between blanks. -/
theorem mem_split {word text : String} :
    word ∈ split text ↔ word.toList ∈ Fields.fields isSpace text.toList := by
  rw [split, List.mem_map]
  constructor
  · rintro ⟨piece, hpiece, rfl⟩
    rwa [String.toList_ofList]
  · intro hword
    exact ⟨word.toList, hword, String.ofList_toList⟩

end PyText
