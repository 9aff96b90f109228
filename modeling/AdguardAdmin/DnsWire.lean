import Mathlib
/-!
# DNS messages on the wire

The header of a message and its question section: names are runs of labels, each behind its
length, up to the empty label of the root.

* `readName_writeName` — labels that fit are read back;
* `readName_labels` — what is read are labels that fit.
-/

namespace DnsWire

abbrev Bytes := List UInt8

/-! ## Words -/

/-- A 16-bit word in network order. -/
def word (n : UInt16) : Bytes := [UInt8.ofNat (n.toNat / 256), UInt8.ofNat n.toNat]

def readWord (high low : UInt8) : UInt16 := UInt16.ofNat (256 * high.toNat + low.toNat)

/-- A word is read back from its bytes. -/
theorem readWord_word (n : UInt16) :
    readWord (UInt8.ofNat (n.toNat / 256)) (UInt8.ofNat n.toNat) = n := by
  have hn := n.toNat_lt
  have hhigh : n.toNat / 256 % 256 = n.toNat / 256 := Nat.mod_eq_of_lt (by omega)
  have hsum : 256 * (n.toNat / 256) + n.toNat % 256 = n.toNat := by omega
  rw [readWord, UInt8.toNat_ofNat', UInt8.toNat_ofNat', hhigh, hsum, UInt16.ofNat_toNat]

/-- The value of a word is that of its two bytes. -/
theorem toNat_readWord (high low : UInt8) :
    (readWord high low).toNat = 256 * high.toNat + low.toNat := by
  have hhigh := high.toNat_lt
  have hlow := low.toNat_lt
  rw [readWord, UInt16.toNat_ofNat', Nat.mod_eq_of_lt (by omega)]

/-! ## Names -/

/-- A label fits into its length octet, whose two high bits are taken. -/
def Fits (label : Bytes) : Prop := 0 < label.length ∧ label.length ≤ 63

instance (label : Bytes) : Decidable (Fits label) := inferInstanceAs (Decidable (_ ∧ _))

def writeName (labels : List Bytes) : Bytes :=
  labels.flatMap (fun label => UInt8.ofNat label.length :: label) ++ [0]

/-- The labels up to the root, and what comes after. -/
def readName : Bytes → Option (List Bytes × Bytes)
  | [] => none
  | n :: rest =>
      if n = 0 then some ([], rest)
      else if 64 ≤ n.toNat ∨ rest.length < n.toNat then none
      else
        (readName (rest.drop n.toNat)).map fun (labels, left) =>
          (rest.take n.toNat :: labels, left)
termination_by bytes => bytes.length
decreasing_by
  rw [List.length_drop, List.length_cons]
  omega

/-- How many octets a name takes. -/
def nameLength (labels : List Bytes) : Nat := (labels.map fun label => label.length + 1).sum + 1

/-- A name is read back. -/
theorem readName_writeName {labels : List Bytes} (h : ∀ label ∈ labels, Fits label)
    (rest : Bytes) : readName (writeName labels ++ rest) = some (labels, rest) := by
  induction labels with
  | nil => rw [writeName, List.flatMap_nil, List.nil_append, List.cons_append, readName, if_pos rfl,
      List.nil_append]
  | cons label more ih =>
      obtain ⟨hpos, hle⟩ := h label List.mem_cons_self
      have hn : (UInt8.ofNat label.length).toNat = label.length := by
        rw [UInt8.toNat_ofNat', Nat.mod_eq_of_lt (by omega)]
      have hne : UInt8.ofNat label.length ≠ 0 := by
        intro hzero
        rw [hzero] at hn
        exact absurd hn.symm hpos.ne'
      have hmore := ih fun l hl => h l (List.mem_cons_of_mem _ hl)
      have hbytes : writeName (label :: more) ++ rest =
          UInt8.ofNat label.length :: (label ++ (writeName more ++ rest)) := by
        simp [writeName]
      rw [hbytes, readName, if_neg hne, hn, if_neg (by rw [List.length_append]; omega),
        List.drop_left, List.take_left, hmore]
      rfl

/-- The labels of a name that was read fit. -/
theorem readName_labels {bytes left : Bytes} {labels : List Bytes}
    (h : readName bytes = some (labels, left)) : ∀ label ∈ labels, Fits label := by
  induction bytes using readName.induct generalizing labels left with
  | case1 =>
      rw [readName] at h
      cases h
  | case2 rest =>
      rw [readName, if_pos rfl] at h
      obtain ⟨rfl, -⟩ := Prod.mk.inj (Option.some.inj h)
      exact fun label hlabel => nomatch hlabel
  | case3 n rest hne hbad =>
      rw [readName, if_neg hne, if_pos hbad] at h
      cases h
  | case4 n rest hne hgood ih =>
      rw [readName, if_neg hne, if_neg hgood] at h
      obtain ⟨⟨more, last⟩, hmore, hpair⟩ := Option.map_eq_some_iff.mp h
      obtain ⟨rfl, rfl⟩ := Prod.mk.inj hpair
      intro label hlabel
      rcases List.mem_cons.mp hlabel with rfl | hlabel
      · have hpos : n.toNat ≠ 0 := fun hzero => hne (UInt8.toNat_inj.mp hzero)
        rw [Fits, List.length_take]
        omega
      · exact ih hmore label hlabel

/-! ## Messages -/

structure Header where
  id : UInt16
  flags : UInt16
  qdcount : UInt16
  ancount : UInt16
  nscount : UInt16
  arcount : UInt16
  deriving DecidableEq, Repr

/-- The highest flag tells a response from a query. -/
def Header.isResponse (h : Header) : Prop := 32768 ≤ h.flags.toNat

structure Question where
  labels : List Bytes
  qtype : UInt16
  qclass : UInt16
  deriving DecidableEq, Repr

structure Message where
  header : Header
  questions : List Question
  /-- The sections after the questions. -/
  sections : Bytes
  deriving DecidableEq, Repr

def readHeader (bytes : Bytes) : Option (Header × Bytes) :=
  if h : 12 ≤ bytes.length then
    some
      ({ id := readWord bytes[0] bytes[1]
         flags := readWord bytes[2] bytes[3]
         qdcount := readWord bytes[4] bytes[5]
         ancount := readWord bytes[6] bytes[7]
         nscount := readWord bytes[8] bytes[9]
         arcount := readWord bytes[10] bytes[11] }, bytes.drop 12)
  else none

/-- A question, whose name must not be longer than names may be. -/
def readQuestion (bytes : Bytes) : Option (Question × Bytes) :=
  match readName bytes with
  | some (labels, a :: b :: c :: d :: rest) =>
      if nameLength labels ≤ 255 then some (⟨labels, readWord a b, readWord c d⟩, rest) else none
  | _ => none

def readQuestions : Nat → Bytes → Option (List Question × Bytes)
  | 0, bytes => some ([], bytes)
  | n + 1, bytes => do
      let (q, rest) ← readQuestion bytes
      let (qs, left) ← readQuestions n rest
      return (q :: qs, left)

def readMessage (bytes : Bytes) : Option Message := do
  let (header, rest) ← readHeader bytes
  let (questions, left) ← readQuestions header.qdcount.toNat rest
  return ⟨header, questions, left⟩

/-- A question that is read has a name that is no longer than names may be. -/
theorem readQuestion_name {bytes left : Bytes} {q : Question}
    (h : readQuestion bytes = some (q, left)) :
    (∀ label ∈ q.labels, Fits label) ∧ nameLength q.labels ≤ 255 := by
  unfold readQuestion at h
  split at h
  · next labels a b c d rest hname =>
      split at h
      · next hlength =>
          obtain ⟨rfl, -⟩ := Prod.mk.inj (Option.some.inj h)
          exact ⟨readName_labels hname, hlength⟩
      · cases h
  · cases h

/-- A question is read back. -/
theorem readQuestion_writeName {labels : List Bytes} (hfits : ∀ label ∈ labels, Fits label)
    (hlength : nameLength labels ≤ 255) (a b c d : UInt8) (rest : Bytes) :
    readQuestion (writeName labels ++ a :: b :: c :: d :: rest) =
      some (⟨labels, readWord a b, readWord c d⟩, rest) := by
  unfold readQuestion
  rw [readName_writeName hfits]
  exact if_pos hlength

/-- A message with one question is read. -/
theorem readMessage_one {bytes rest : Bytes} {header : Header}
    (h : readHeader bytes = some (header, rest)) (hone : header.qdcount = 1) :
    readMessage bytes = (readQuestion rest).map fun q => ⟨header, [q.1], q.2⟩ := by
  have hcount : header.qdcount.toNat = 1 := congrArg UInt16.toNat hone
  unfold readMessage
  rw [h, Option.bind_eq_bind, Option.bind_some]
  dsimp only
  rw [hcount, readQuestions]
  cases hq : readQuestion rest with
  | none => rfl
  | some q => rfl

end DnsWire
