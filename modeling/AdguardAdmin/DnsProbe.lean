import AdguardAdmin.DnsWire
import AdguardAdmin.GoText
/-!
# The DNS probe

The track script of keepalived sends the local resolver one query, put together by hand, and
takes any response with its ID for an answer.

* `probe_speaks_dns` — what is sent is read as one standard query for the labels of the name,
  exactly if the name fits, and what is accepted are exactly the responses with its ID, of which
  the query itself is none;
* `probe_passes_iff` — when the probe passes.
-/

namespace AdguardAdmin.DnsProbe

open DnsWire GoText

/-- `strings.TrimSuffix(name, ".")`. -/
def trimDot (name : Bytes) : Bytes := if name.getLast? = some 46 then name.dropLast else name

/-- The labels of a name; empty ones are passed over. -/
def labels (name : Bytes) : List Bytes := ((trimDot name).splitOn 46).filter (· ≠ [])

/-- `Query`. -/
def query (id : UInt16) (name : Bytes) : Bytes :=
  word id ++ word 0x0100 ++ word 1 ++ [0, 0, 0, 0, 0, 0] ++
    (labels name).flatMap (fun label => UInt8.ofNat label.length :: label) ++ [0] ++ [0, 1, 0, 1]

/-- `Valid`. -/
def valid (resp : Bytes) (id : UInt16) : Bool :=
  if h : resp.length < 12 then false
  else if readWord resp[0] resp[1] ≠ id then false
  else resp[2] &&& 0x80 ≠ 0

/-- How the network and the resolver behave. -/
structure Network where
  dial : Except String Unit
  id : Except String UInt16
  setDeadline : Except String Unit
  write : Bytes → Except String Unit
  /-- What is received for what was sent. -/
  receive : Bytes → Except String Bytes

/-- "a.root-servers.net." -/
def defaultName : Bytes := "a.root-servers.net.".toUTF8.toList

/-- The buffer has 4096 bytes; the rest of a datagram is lost. -/
def probe (net : Network) (name : Bytes) : Except String Unit := do
  let name := if name = [] then defaultName else name
  net.dial
  let id ← net.id
  net.setDeadline
  net.write (query id name)
  let resp ← net.receive (query id name)
  if valid (resp.take 4096) id then .ok () else .error "not a valid DNS response"

/-- A recursive query for the IPv4 addresses of a name. -/
def standardQuery (id : UInt16) (labels : List Bytes) : Message where
  header := ⟨id, 0x0100, 1, 0, 0, 0⟩
  questions := [⟨labels, 1, 1⟩]
  sections := []

/-- Every label and the name as a whole are as short as they have to be. -/
def NameFits (name : Bytes) : Prop :=
  (∀ label ∈ labels name, label.length ≤ 63) ∧ nameLength (labels name) ≤ 255

instance (name : Bytes) : Decidable (NameFits name) := inferInstanceAs (Decidable (_ ∧ _))

/-- A response to the query with this ID. -/
def Answers (resp : Bytes) (id : UInt16) : Prop :=
  ∃ header rest, readHeader resp = some (header, rest) ∧ header.id = id ∧ header.isResponse

theorem labels_pos {name label : Bytes} (h : label ∈ labels name) : 0 < label.length :=
  List.length_pos_of_ne_nil (of_decide_eq_true (List.mem_filter.mp h).2)

/-- A query is its header, its name and its type. -/
theorem query_eq (id : UInt16) (name : Bytes) :
    query id name = UInt8.ofNat (id.toNat / 256) :: UInt8.ofNat id.toNat :: 1 :: 0 :: 0 :: 1 ::
      0 :: 0 :: 0 :: 0 :: 0 :: 0 :: (writeName (labels name) ++ [0, 1, 0, 1]) := by
  simp [query, word, writeName]

/-- The header of a query is read back. -/
theorem readHeader_query (id : UInt16) (name : Bytes) :
    readHeader (query id name) =
      some (⟨id, 0x0100, 1, 0, 0, 0⟩, writeName (labels name) ++ [0, 1, 0, 1]) := by
  rw [query_eq]
  unfold readHeader
  rw [dif_pos (by simp)]
  simp only [List.getElem_cons_zero, List.getElem_cons_succ, readWord_word, List.drop_succ_cons,
    List.drop_zero]
  rfl

/-- **The query is read as it was meant, exactly if the name fits.** -/
theorem readMessage_query_iff (id : UInt16) (name : Bytes) :
    readMessage (query id name) = some (standardQuery id (labels name)) ↔ NameFits name := by
  rw [readMessage_one (readHeader_query id name) rfl]
  constructor
  · intro h
    obtain ⟨⟨q, left⟩, hq, hmessage⟩ := Option.map_eq_some_iff.mp h
    obtain ⟨-, hquestions, -⟩ := Message.mk.inj hmessage
    obtain ⟨hfits, hlength⟩ := readQuestion_name hq
    have hlabels : q.labels = labels name :=
      congrArg Question.labels (List.singleton_inj.mp hquestions)
    rw [hlabels] at hfits hlength
    exact ⟨fun label hlabel => (hfits label hlabel).2, hlength⟩
  · rintro ⟨hshort, hlength⟩
    rw [readQuestion_writeName (fun label hlabel => ⟨labels_pos hlabel, hshort label hlabel⟩)
      hlength]
    rfl

/-! ## The answer -/

theorem responseBit : ∀ n < 256, n &&& 128 ≠ 0 ↔ 128 ≤ n := by decide +kernel

/-- Which is what is asked of an answer. -/
theorem and_ne_zero_iff (b : UInt8) : b &&& 0x80 ≠ 0 ↔ 128 ≤ b.toNat := by
  rw [← responseBit b.toNat b.toNat_lt, Ne, Ne, ← UInt8.toNat_inj, UInt8.toNat_and]
  rfl

/-- **What is accepted are the responses with the ID.** -/
theorem valid_iff {resp : Bytes} {id : UInt16} : valid resp id = true ↔ Answers resp id := by
  unfold valid Answers readHeader
  by_cases hlength : 12 ≤ resp.length
  · rw [dif_neg (by omega), dif_pos hlength]
    constructor
    · intro hvalid
      split at hvalid
      · cases hvalid
      · next hid =>
          refine ⟨_, _, rfl, not_not.mp hid, ?_⟩
          have hbit := (and_ne_zero_iff _).mp (of_decide_eq_true hvalid)
          rw [Header.isResponse, toNat_readWord]
          omega
    · rintro ⟨header, rest, hread, hid, hresponse⟩
      obtain ⟨rfl, -⟩ := Prod.mk.inj (Option.some.inj hread)
      rw [if_neg (not_not.mpr hid)]
      refine decide_eq_true ((and_ne_zero_iff _).mpr ?_)
      have hlow := resp[3].toNat_lt
      rw [Header.isResponse, toNat_readWord] at hresponse
      omega
  · rw [dif_pos (by omega), dif_neg hlength]
    simp

/-- The query itself is no answer to it. -/
theorem valid_query (id : UInt16) (name : Bytes) : valid (query id name) id = false := by
  rw [Bool.eq_false_iff, Ne, valid_iff]
  rintro ⟨header, rest, hread, -, hresponse⟩
  obtain ⟨rfl, -⟩ := Prod.mk.inj (Option.some.inj ((readHeader_query id name).symm.trans hread))
  exact absurd (show 32768 ≤ (0x0100 : UInt16).toNat from hresponse) (by decide)

/-- The rest of a long datagram does not matter. -/
theorem valid_take (resp : Bytes) (id : UInt16) : valid (resp.take 4096) id = valid resp id := by
  unfold valid
  by_cases hlength : resp.length < 12
  · rw [dif_pos hlength, dif_pos (by rw [List.length_take]; omega)]
  · rw [dif_neg hlength, dif_neg (by rw [List.length_take]; omega)]
    simp only [List.getElem_take]

/-- The question that is asked. -/
def asked (name : Bytes) : Bytes := if name = [] then defaultName else name

/-- **The probe passes exactly if the resolver answers its query.** -/
theorem probe_passes_iff (net : Network) (name : Bytes) :
    probe net name = .ok () ↔
      net.dial = .ok () ∧ net.setDeadline = .ok () ∧
        ∃ id, net.id = .ok id ∧ net.write (query id (asked name)) = .ok () ∧
          ∃ resp, net.receive (query id (asked name)) = .ok resp ∧ Answers resp id := by
  have hprobe : probe net name = (do
      net.dial
      let id ← net.id
      net.setDeadline
      net.write (query id (asked name))
      let resp ← net.receive (query id (asked name))
      if valid (resp.take 4096) id then .ok () else .error "not a valid DNS response") := rfl
  rw [hprobe]
  constructor
  · intro h
    obtain ⟨_, hdial, h⟩ := bind_ok.mp h
    obtain ⟨id, hid, h⟩ := bind_ok.mp h
    obtain ⟨_, hdeadline, h⟩ := bind_ok.mp h
    obtain ⟨_, hwrite, h⟩ := bind_ok.mp h
    obtain ⟨resp, hreceive, h⟩ := bind_ok.mp h
    refine ⟨hdial, hdeadline, id, hid, hwrite, resp, hreceive, ?_⟩
    split at h
    · next hvalid => exact valid_iff.mp (valid_take resp id ▸ hvalid)
    · cases h
  · rintro ⟨hdial, hdeadline, id, hid, hwrite, resp, hreceive, hanswers⟩
    apply bind_ok.mpr ⟨_, hdial, ?_⟩
    apply bind_ok.mpr ⟨id, hid, ?_⟩
    apply bind_ok.mpr ⟨_, hdeadline, ?_⟩
    apply bind_ok.mpr ⟨_, hwrite, ?_⟩
    apply bind_ok.mpr ⟨resp, hreceive, ?_⟩
    exact if_pos ((valid_take resp id).trans (valid_iff.mpr hanswers))

/-- **What the probe asks and what it believes.** -/
theorem probe_speaks_dns (id : UInt16) (name : Bytes) :
    (readMessage (query id name) = some (standardQuery id (labels name)) ↔ NameFits name) ∧
      (∀ resp, valid resp id = true ↔ Answers resp id) ∧
        valid (query id name) id = false :=
  ⟨readMessage_query_iff id name, fun _ => valid_iff, valid_query id name⟩

end AdguardAdmin.DnsProbe
