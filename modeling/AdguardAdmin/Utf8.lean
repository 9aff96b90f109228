import Mathlib.Data.List.Lex
import Mathlib.Data.Char
/-!
# UTF-8

Texts as bytes and back.  `decode` reads bytes one code point at a time and puts a
replacement character for every byte that starts none, so `decode_bytes` says only
that it undoes `bytes`.

Comparing two texts by code points and comparing their UTF-8 encodings byte by
byte give the same answer: `bytes_lt_bytes_iff`.  The reason is that encodings of
different characters differ at a first byte on which the order is already
decided, so neither is a prefix of the other.
-/

namespace Utf8

/-- The UTF-8 encoding of a code point below `0x110000`. -/
def encodePoint (n : Nat) : List Nat :=
  if n < 0x80 then [n]
  else if n < 0x800 then [0xc0 + n / 64, 0x80 + n % 64]
  else if n < 0x10000 then [0xe0 + n / 4096, 0x80 + n / 64 % 64, 0x80 + n % 64]
  else [0xf0 + n / 262144, 0x80 + n / 4096 % 64, 0x80 + n / 64 % 64, 0x80 + n % 64]

/-- The UTF-8 bytes of a text. -/
def bytes (cs : List Char) : List Nat := cs.flatMap fun c => encodePoint c.toNat

@[simp] theorem bytes_nil : bytes [] = [] := rfl

@[simp] theorem bytes_cons (c : Char) (cs : List Char) :
    bytes (c :: cs) = encodePoint c.toNat ++ bytes cs := rfl

/-- Smaller code points have smaller encodings, whatever follows. -/
theorem encodePoint_lt {m n : Nat} (hlt : m < n) (hn : n < 0x110000) (xs ys : List Nat) :
    encodePoint m ++ xs < encodePoint n ++ ys := by
  unfold encodePoint
  split_ifs <;> simp only [List.cons_append, List.nil_append, List.cons_lt_cons_iff] <;> omega

theorem encodePoint_ne_nil (n : Nat) : encodePoint n ≠ [] := by
  unfold encodePoint
  split_ifs <;> simp

/-- A common beginning does not matter for the order. -/
private theorem append_lt_append_left (xs ys zs : List Nat) :
    xs ++ ys < xs ++ zs ↔ ys < zs := by
  induction xs with
  | nil => simp
  | cons x xs ih => simpa [List.cons_lt_cons_iff] using ih

/-- Characters are below the end of Unicode. -/
theorem toNat_lt (c : Char) : c.toNat < 0x110000 := by
  rcases c.valid with h | h
  · have : c.toNat < 0xd800 := h
    omega
  · exact h.2

/-- **Byte order is code-point order.** -/
theorem bytes_lt_bytes_iff (s t : List Char) : bytes s < bytes t ↔ s < t := by
  induction s generalizing t with
  | nil =>
      cases t with
      | nil => simp
      | cons d t =>
          obtain ⟨x, xs, hx⟩ := List.exists_cons_of_ne_nil (encodePoint_ne_nil d.toNat)
          simp [hx]
  | cons c s ih =>
      cases t with
      | nil => simp
      | cons d t =>
          rw [bytes_cons, bytes_cons, List.cons_lt_cons_iff]
          rcases lt_trichotomy c d with hlt | heq | hgt
          · have hpoint : c.toNat < d.toNat := hlt
            have hbytes := encodePoint_lt hpoint (toNat_lt d) (bytes s) (bytes t)
            exact iff_of_true hbytes (Or.inl hlt)
          · subst heq
            simp [append_lt_append_left, ih]
          · have hpoint : d.toNat < c.toNat := hgt
            have hbytes := encodePoint_lt hpoint (toNat_lt c) (bytes t) (bytes s)
            refine iff_of_false (lt_asymm hbytes) ?_
            rintro (hlt | ⟨heq, -⟩)
            · exact lt_asymm hgt hlt
            · exact hgt.ne' heq

/-- Different texts have different bytes. -/
theorem bytes_injective : Function.Injective bytes := by
  intro s t h
  rcases lt_trichotomy s t with hlt | heq | hgt
  · have hbytes := (bytes_lt_bytes_iff s t).mpr hlt
    rw [h] at hbytes
    exact absurd hbytes (lt_irrefl _)
  · exact heq
  · have hbytes := (bytes_lt_bytes_iff t s).mpr hgt
    rw [h] at hbytes
    exact absurd hbytes (lt_irrefl _)

/-! ## Reading bytes -/

def isContinuation (b : Nat) : Bool := 0x80 ≤ b && b < 0xc0

/-- The replacement character, for one byte that starts no code point. -/
def invalid : Nat × Nat := (0xfffd, 1)

/-- The first code point and how many bytes it takes.  Overlong forms, surrogates
and code points past the last one are invalid. -/
def decodePoint : List Nat → Nat × Nat
  | [] => invalid
  | [a] => if a < 0x80 then (a, 1) else invalid
  | a :: b :: rest =>
      if a < 0x80 then (a, 1)
      else if 0xc2 ≤ a ∧ a < 0xe0 ∧ isContinuation b then ((a - 0xc0) * 64 + (b - 0x80), 2)
      else match rest with
        | [] => invalid
        | c :: rest =>
            let wide := (a - 0xe0) * 4096 + (b - 0x80) * 64 + (c - 0x80)
            if 0xe0 ≤ a ∧ a < 0xf0 ∧ isContinuation b ∧ isContinuation c ∧
                0x800 ≤ wide ∧ ¬ (0xd800 ≤ wide ∧ wide < 0xe000) then (wide, 3)
            else match rest with
              | [] => invalid
              | d :: _ =>
                  let wide := (a - 0xf0) * 262144 + (b - 0x80) * 4096 + (c - 0x80) * 64 + (d - 0x80)
                  if 0xf0 ≤ a ∧ isContinuation b ∧ isContinuation c ∧ isContinuation d ∧
                      0x10000 ≤ wide ∧ wide < 0x110000 then (wide, 4)
                  else invalid

def decodeWith : Nat → List Nat → List Char
  | 0, _ => []
  | _, [] => []
  | fuel + 1, a :: rest =>
      let (n, size) := decodePoint (a :: rest)
      Char.ofNat n :: decodeWith fuel ((a :: rest).drop size)

/-- The text of a sequence of bytes. -/
def decode (bs : List Nat) : List Char := decodeWith bs.length bs

theorem isContinuation_iff {b : Nat} : isContinuation b = true ↔ 0x80 ≤ b ∧ b < 0xc0 := by
  simp [isContinuation]

/-- A character is read back from its bytes. -/
theorem decodePoint_encodePoint (n : Nat) (hn : n.isValidChar) (rest : List Nat) :
    decodePoint (encodePoint n ++ rest) = (n, (encodePoint n).length) := by
  have hrange : n < 0x110000 ∧ ¬ (0xd800 ≤ n ∧ n < 0xe000) := by
    rcases hn with h | h <;> omega
  unfold encodePoint
  split_ifs with hone htwo hthree
  · cases rest <;> simp [decodePoint, hone]
  · have hlead : ¬ 0xc0 + n / 64 < 0x80 := by omega
    have htail : 0xc2 ≤ 0xc0 + n / 64 ∧ 0xc0 + n / 64 < 0xe0 ∧
        isContinuation (0x80 + n % 64) = true := by
      rw [isContinuation_iff]
      omega
    have hvalue : (0xc0 + n / 64 - 0xc0) * 64 + (0x80 + n % 64 - 0x80) = n := by omega
    simp only [List.cons_append, List.nil_append, decodePoint]
    rw [if_neg hlead, if_pos htail, hvalue]
    rfl
  · have hlead : ¬ 0xe0 + n / 4096 < 0x80 := by omega
    have hpair : ¬ (0xc2 ≤ 0xe0 + n / 4096 ∧ 0xe0 + n / 4096 < 0xe0 ∧
        isContinuation (0x80 + n / 64 % 64) = true) := by omega
    have hvalue : (0xe0 + n / 4096 - 0xe0) * 4096 + (0x80 + n / 64 % 64 - 0x80) * 64 +
        (0x80 + n % 64 - 0x80) = n := by omega
    have htail : 0xe0 ≤ 0xe0 + n / 4096 ∧ 0xe0 + n / 4096 < 0xf0 ∧
        isContinuation (0x80 + n / 64 % 64) = true ∧ isContinuation (0x80 + n % 64) = true ∧
        0x800 ≤ n ∧ ¬ (0xd800 ≤ n ∧ n < 0xe000) := by
      rw [isContinuation_iff, isContinuation_iff]
      omega
    simp only [List.cons_append, List.nil_append, decodePoint]
    rw [if_neg hlead, if_neg hpair, hvalue, if_pos htail]
    rfl
  · have hlead : ¬ 0xf0 + n / 262144 < 0x80 := by omega
    have hpair : ¬ (0xc2 ≤ 0xf0 + n / 262144 ∧ 0xf0 + n / 262144 < 0xe0 ∧
        isContinuation (0x80 + n / 4096 % 64) = true) := by omega
    have hvalue : (0xf0 + n / 262144 - 0xf0) * 262144 + (0x80 + n / 4096 % 64 - 0x80) * 4096 +
        (0x80 + n / 64 % 64 - 0x80) * 64 + (0x80 + n % 64 - 0x80) = n := by omega
    have htail : 0xf0 ≤ 0xf0 + n / 262144 ∧ isContinuation (0x80 + n / 4096 % 64) = true ∧
        isContinuation (0x80 + n / 64 % 64) = true ∧ isContinuation (0x80 + n % 64) = true ∧
        0x10000 ≤ n ∧ n < 0x110000 := by
      rw [isContinuation_iff, isContinuation_iff, isContinuation_iff]
      omega
    simp only [List.cons_append, List.nil_append, decodePoint]
    rw [if_neg hlead, if_neg hpair, if_neg (by omega), hvalue, if_pos htail]
    rfl

/-- The bytes of a text are decoded to the text. -/
theorem decodeWith_bytes (cs : List Char) {fuel : Nat} (hfuel : (bytes cs).length ≤ fuel) :
    decodeWith fuel (bytes cs) = cs := by
  induction cs generalizing fuel with
  | nil => cases fuel <;> rfl
  | cons c cs ih =>
      obtain ⟨a, tail, ha⟩ := List.exists_cons_of_ne_nil (encodePoint_ne_nil c.toNat)
      have hpoint := decodePoint_encodePoint c.toNat c.valid (bytes cs)
      have hdrop : (encodePoint c.toNat ++ bytes cs).drop (encodePoint c.toNat).length =
          bytes cs := List.drop_left
      rw [bytes_cons] at hfuel ⊢
      rw [ha] at hpoint hdrop hfuel ⊢
      cases fuel with
      | zero => simp at hfuel
      | succ fuel =>
          have hlen : (bytes cs).length ≤ fuel := by
            simp only [List.length_append, List.length_cons] at hfuel
            omega
          rw [List.cons_append] at hpoint hdrop ⊢
          rw [decodeWith, hpoint]
          dsimp only
          rw [hdrop, ih hlen, Char.ofNat_toNat]

/-- Decoding undoes encoding. -/
theorem decode_bytes (cs : List Char) : decode (bytes cs) = cs :=
  decodeWith_bytes cs (le_refl _)

end Utf8
