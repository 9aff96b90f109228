import AdguardAdmin.JsonText
import AdguardAdmin.JsonOrder
import AdguardAdmin.Utf8
/-!
# Canonical JSON

Both programs hash a canonical text of a spec: the control plane writes it with
`canonicalJson`, the agent re-encodes whatever it received with `canonical`.

The first two sections are the two writers.  `dumps_eq_encode` says that they write
the same text, `encode_text` that this text is JSON for the value with its members
sorted; reading is unique, so the text determines the value.  The last section is
about the agent's check for trailing data, which asks the decoder whether more
*array elements or members* follow.
-/

namespace AdguardAdmin

namespace Canon

open Json JsonText GoText IpLiterals

/-- `%04x`. -/
def hex04 (n : Nat) : List Char :=
  List.replicate (4 - (Nat.toDigits 16 n).length) '0' ++ Nat.toDigits 16 n

/-! ## The control plane's writer -/

/-- The table of escapes of `json.dumps` without `ensure_ascii`. -/
def escapeDct (c : Char) : Option (List Char) :=
  if c = '\\' then some ['\\', '\\']
  else if c = '"' then some ['\\', '"']
  else if c = Char.ofNat 8 then some ['\\', 'b']
  else if c = Char.ofNat 12 then some ['\\', 'f']
  else if c = '\n' then some ['\\', 'n']
  else if c = '\r' then some ['\\', 'r']
  else if c = '\t' then some ['\\', 't']
  else if c.toNat < 0x20 then some ('\\' :: 'u' :: hex04 c.toNat)
  else none

def encodeBasestring (s : String) : List Char :=
  '"' :: s.toList.flatMap (fun c => (escapeDct c).getD [c]) ++ ['"']

mutual

def dumps : Json Int → List Char
  | .null => "null".toList
  | .bool true => "true".toList
  | .bool false => "false".toList
  | .num n => (toString n).toList
  | .str s => encodeBasestring s
  | .arr items => '[' :: [','].intercalate (dumpsItems items) ++ [']']
  | .obj fields => '{' :: [','].intercalate
      ((sortMembers (dumpsFields fields)).map fun kv => encodeBasestring kv.1 ++ ':' :: kv.2) ++
      ['}']

def dumpsItems : List (Json Int) → List (List Char)
  | [] => []
  | v :: rest => dumps v :: dumpsItems rest

def dumpsFields : List (String × Json Int) → List (String × List Char)
  | [] => []
  | (k, v) :: rest => (k, dumps v) :: dumpsFields rest

end

/-- `pki.canonical_json`. -/
def canonicalJson (spec : Json Int) : List Char := dumps spec

/-! ## The agent's writer -/

/-- `writeString`, for one character. -/
def writeRune (r : Char) : List Char :=
  if r = '"' then ['\\', '"']
  else if r = '\\' then ['\\', '\\']
  else if r = '\n' then ['\\', 'n']
  else if r = '\r' then ['\\', 'r']
  else if r = '\t' then ['\\', 't']
  else if r = Char.ofNat 8 then ['\\', 'b']
  else if r = Char.ofNat 12 then ['\\', 'f']
  else if r.toNat < 0x20 then '\\' :: 'u' :: hex04 r.toNat
  else [r]

def writeString (s : String) : List Char := '"' :: s.toList.flatMap writeRune ++ ['"']

/-- Keys compare by their bytes. -/
def BytesLe {α : Type} (a b : String × α) : Prop :=
  Utf8.bytes a.1.toList ≤ Utf8.bytes b.1.toList

instance {α : Type} : DecidableRel (BytesLe (α := α)) := fun a b =>
  inferInstanceAs (Decidable (Utf8.bytes a.1.toList ≤ Utf8.bytes b.1.toList))

mutual

def encode : Json String → List Char
  | .null => "null".toList
  | .bool true => "true".toList
  | .bool false => "false".toList
  | .num n => n.toList
  | .str s => writeString s
  | .arr items => '[' :: [','].intercalate (encodeItems items) ++ [']']
  | .obj fields => '{' :: [','].intercalate
      (((encodeFields fields).insertionSort BytesLe).map fun kv => writeString kv.1 ++ ':' :: kv.2) ++
      ['}']

def encodeItems : List (Json String) → List (List Char)
  | [] => []
  | v :: rest => encode v :: encodeItems rest

def encodeFields : List (String × Json String) → List (String × List Char)
  | [] => []
  | (k, v) :: rest => (k, encode v) :: encodeFields rest

end

/-- `m[k] = v`. -/
def assign {α : Type} (m : List (String × α)) (k : String) (v : α) : List (String × α) :=
  if k ∈ m.map Prod.fst then m.map fun kv => if kv.1 = k then (k, v) else kv else m ++ [(k, v)]

def assignAll {α : Type} (m fields : List (String × α)) : List (String × α) :=
  fields.foldl (fun m kv => assign m kv.1 kv.2) m

mutual

/-- The value as `any`: objects are maps, so the last of several members with one
key stays. -/
def decoded : Json String → Json String
  | .arr items => .arr (decodedItems items)
  | .obj fields => .obj (assignAll [] (decodedFields fields))
  | .null => .null
  | .bool b => .bool b
  | .num n => .num n
  | .str s => .str s

def decodedItems : List (Json String) → List (Json String)
  | [] => []
  | v :: rest => decoded v :: decodedItems rest

def decodedFields : List (String × Json String) → List (String × Json String)
  | [] => []
  | (k, v) :: rest => (k, decoded v) :: decodedFields rest

end

/-- `dec.Decode(&v)` with `UseNumber`, and what the decoder has not read. -/
def decodeValue (raw : List Nat) : Except Error (Json String × List Char) :=
  match readValue ((skip (Utf8.decode raw)).length + 1) (skip (Utf8.decode raw)) with
  | some (v, rest) => .ok (decoded v, rest)
  | none => errorf "invalid JSON" []

/-- `dec.More()`. -/
def more (rest : List Char) : Bool :=
  match skip rest with
  | [] => false
  | c :: _ => c ≠ ']' && c ≠ '}'

def canonical (raw : List Nat) : Except Error (List Nat) := do
  let (v, rest) ← decodeValue raw
  failIf (more rest = true) "trailing data after JSON value" []
  return Utf8.bytes (encode v)

/-! ## One text -/

/-- The items of an array are encoded one by one. -/
theorem encodeItems_eq (items : List (Json String)) : encodeItems items = items.map encode := by
  induction items with
  | nil => rfl
  | cons v rest ih => rw [encodeItems, ih, List.map_cons]

/-- Encoding the fields of an object encodes each value. -/
theorem encodeFields_eq (fields : List (String × Json String)) :
    encodeFields fields = mapValues encode fields := by
  induction fields with
  | nil => rfl
  | cons kv rest ih =>
      rw [encodeFields, ih]
      rfl

/-- The control plane's writer writes items one by one. -/
theorem dumpsItems_eq (items : List (Json Int)) : dumpsItems items = items.map dumps := by
  induction items with
  | nil => rfl
  | cons v rest ih => rw [dumpsItems, ih, List.map_cons]

/-- Dumping the fields of an object dumps each value. -/
theorem dumpsFields_eq (fields : List (String × Json Int)) :
    dumpsFields fields = mapValues dumps fields := by
  induction fields with
  | nil => rfl
  | cons kv rest ih =>
      rw [dumpsFields, ih]
      rfl

/-- Items are decoded one by one. -/
theorem decodedItems_eq (items : List (Json String)) :
    decodedItems items = items.map decoded := by
  induction items with
  | nil => rfl
  | cons v rest ih => rw [decodedItems, ih, List.map_cons]

/-- Decoding the fields of an object decodes each value. -/
theorem decodedFields_eq (fields : List (String × Json String)) :
    decodedFields fields = mapValues decoded fields := by
  induction fields with
  | nil => rfl
  | cons kv rest ih =>
      rw [decodedFields, ih]
      rfl

/-- Byte order and code-point order sort keys alike. -/
theorem insertionSort_bytesLe {α : Type} (fields : List (String × α)) :
    fields.insertionSort BytesLe = sortMembers fields := by
  have horder : ∀ a ∈ fields, ∀ b ∈ fields, BytesLe a b ↔ KeyLe a b := by
    intro a _ b _
    unfold BytesLe KeyLe
    rw [← not_lt, ← not_lt, Utf8.bytes_lt_bytes_iff]
  have hsort := List.map_insertionSort BytesLe KeyLe id fields horder
  rwa [List.map_id, List.map_id] at hsort

/-- Both programs escape a character the same way. -/
theorem escapeDct_eq (c : Char) : (escapeDct c).getD [c] = writeRune c := by
  unfold escapeDct writeRune
  by_cases hquote : c = '"'
  · subst hquote
    rfl
  by_cases hslash : c = '\\'
  · subst hslash
    rfl
  by_cases hback : c = Char.ofNat 8
  · subst hback
    rfl
  by_cases hfeed : c = Char.ofNat 12
  · subst hfeed
    rfl
  simp only [hquote, hslash, hback, hfeed, if_false]
  split_ifs <;> rfl

theorem encodeBasestring_eq (s : String) : encodeBasestring s = writeString s := by
  simp only [encodeBasestring, writeString, escapeDct_eq]

/-- How the control plane writes an integer. -/
def intText (n : Int) : String := toString n

/-- **The two writers agree.** -/
theorem dumps_eq_encode (v : Json Int) : dumps v = encode (v.mapNum intText) := by
  induction v using Json.induct with
  | null => rfl
  | bool b => cases b <;> rfl
  | num n => rfl
  | str s => exact encodeBasestring_eq s
  | arr items ih =>
      have hitems : items.map dumps = (items.map (mapNum intText)).map encode := by
        rw [List.map_map]
        exact List.map_congr_left ih
      rw [mapNum_arr, dumps, encode, dumpsItems_eq, encodeItems_eq, hitems]
  | obj fields ih =>
      have hvalues : mapValues dumps fields =
          mapValues encode (mapValues (mapNum intText) fields) := by
        rw [mapValues_mapValues]
        exact mapValues_congr ih
      rw [mapNum_obj, dumps, encode, dumpsFields_eq, encodeFields_eq, hvalues,
        insertionSort_bytesLe]
      simp only [encodeBasestring_eq]

/-- The order of members does not show in the canonical text. -/
theorem encode_normal (v : Json String) : encode (normal v) = encode v := by
  induction v using Json.induct with
  | null => rfl
  | bool b => rfl
  | num n => rfl
  | str s => rfl
  | arr items ih =>
      have hitems : (items.map normal).map encode = items.map encode := by
        rw [List.map_map]
        exact List.map_congr_left ih
      rw [normal_arr, encode, encode, encodeItems_eq, encodeItems_eq, hitems]
  | obj fields ih =>
      have hvalues : mapValues encode (mapValues normal fields) = mapValues encode fields := by
        rw [mapValues_mapValues]
        exact mapValues_congr ih
      rw [normal_obj, encode, encode, encodeFields_eq, encodeFields_eq, insertionSort_bytesLe,
        insertionSort_bytesLe, ← sortMembers_mapValues, hvalues, sortMembers_sortMembers]

/-! ## The canonical text is JSON -/

theorem hex04_read : ∀ n < 0x20,
    (hex04 n).length = 4 ∧ number? hexDigit? 16 (hex04 n) = some n := by
  decide

/-- The piece of a string that `writeRune` writes. -/
def pieceOf (r : Char) : Piece :=
  if r.toNat < 0x20 ∧ r ≠ '\n' ∧ r ≠ '\r' ∧ r ≠ '\t' ∧ r ≠ Char.ofNat 8 ∧ r ≠ Char.ofNat 12 then
    .unit r.toNat
  else .char r

/-- What is written for a character is a text of it. -/
theorem pieceText_writeRune (r : Char) : PieceText (pieceOf r) (writeRune r) := by
  by_cases hquote : r = '"'
  · subst hquote
    exact .short (by decide)
  by_cases hslash : r = '\\'
  · subst hslash
    exact .short (by decide)
  by_cases hline : r = '\n'
  · subst hline
    exact .short (by decide)
  by_cases hreturn : r = '\r'
  · subst hreturn
    exact .short (by decide)
  by_cases htab : r = '\t'
  · subst htab
    exact .short (by decide)
  by_cases hback : r = Char.ofNat 8
  · subst hback
    exact .short (by decide)
  by_cases hfeed : r = Char.ofNat 12
  · subst hfeed
    exact .short (by decide)
  by_cases hcontrol : r.toNat < 0x20
  · obtain ⟨hlen, hread⟩ := hex04_read r.toNat hcontrol
    match hdigits : hex04 r.toNat, hlen with
    | [a, b, c, d], _ =>
        have hwrite : writeRune r = ['\\', 'u', a, b, c, d] := by
          simp [writeRune, hquote, hslash, hline, hreturn, htab, hback, hfeed, hcontrol, hdigits]
        have hpiece : pieceOf r = .unit r.toNat := by
          simp [pieceOf, hline, hreturn, htab, hback, hfeed, hcontrol]
        rw [hdigits] at hread
        rw [hwrite, hpiece]
        exact .unit hread
  · have hwrite : writeRune r = [r] := by
      simp [writeRune, hquote, hslash, hline, hreturn, htab, hback, hfeed, hcontrol]
    have hpiece : pieceOf r = .char r := by simp [pieceOf, hcontrol]
    have hplain : isPlain r = true := by
      simp only [isPlain, Bool.and_eq_true, decide_eq_true_eq, ne_eq]
      exact ⟨⟨hquote, hslash⟩, by omega⟩
    rw [hwrite, hpiece]
    exact .plain hplain

/-- A control character stands for itself, whatever follows. -/
theorem unquote_pieceOf (r : Char) (ps : List Piece) :
    unquote (pieceOf r :: ps) = r :: unquote ps := by
  unfold pieceOf
  split
  · next h =>
      have hhigh : isHigh r.toNat = false := by
        simp only [isHigh, Bool.and_eq_false_iff, decide_eq_false_iff_not]
        omega
      have hlow : isLow r.toNat = false := by
        simp only [isLow, Bool.and_eq_false_iff, decide_eq_false_iff_not]
        omega
      have hchar : unitChar r.toNat = r := by
        simp [unitChar, hhigh, hlow, Char.ofNat_toNat]
      match ps with
      | [] => simp [unquote, hchar]
      | .char c :: ps => simp [unquote, hchar]
      | .unit n :: ps => simp [unquote, hchar, hhigh]
  · simp [unquote]

/-- What is written for a string is a text of it. -/
theorem stringText_writeString (s : String) : StringText s (writeString s) := by
  have hpieces : ∀ cs : List Char, PiecesText (cs.map pieceOf) (cs.flatMap writeRune) ∧
      unquote (cs.map pieceOf) = cs := by
    intro cs
    induction cs with
    | nil => exact ⟨.nil, rfl⟩
    | cons c cs ih =>
        obtain ⟨htext, hunquote⟩ := ih
        refine ⟨.cons (pieceText_writeRune c) htext, ?_⟩
        rw [List.map_cons, unquote_pieceOf, hunquote]
  obtain ⟨htext, hunquote⟩ := hpieces s.toList
  exact ⟨_, _, htext, rfl, by rw [hunquote, String.ofList_toList]⟩

/-- The value's numbers are number texts. -/
def Numbers (v : Json String) : Prop := Every (fun n => IsNumber n.toList) (fun _ => True) v

/-- Texts of items with commas between them are a text of the array's items. -/
theorem itemsText_join {items : List (Json String)}
    (h : ∀ v ∈ items, Text (normal v) (encode v)) :
    ItemsText (items.map normal) ([','].intercalate (items.map encode)) := by
  induction items with
  | nil => exact blank_nil
  | cons v rest ih =>
      have hhead := h v List.mem_cons_self
      have htail := ih fun w hw => h w (List.mem_cons_of_mem v hw)
      cases rest with
      | nil => exact ⟨[], encode v, [], blank_nil, hhead, blank_nil, by simp⟩
      | cons w rest =>
          refine ⟨[], encode v, [], _, blank_nil, hhead, blank_nil, htail, ?_⟩
          simp [List.intercalate_cons_cons]

/-- Texts of the values of fields join to a text of the fields. -/
theorem fieldsText_join {fields : List (String × Json String)}
    (h : ∀ kv ∈ fields, Text (normal kv.2) (encode kv.2)) :
    FieldsText (mapValues normal fields) ([','].intercalate
      ((mapValues encode fields).map fun kv => writeString kv.1 ++ ':' :: kv.2)) := by
  induction fields with
  | nil => exact blank_nil
  | cons kv rest ih =>
      have hhead := h kv List.mem_cons_self
      have htail := ih fun kw hkw => h kw (List.mem_cons_of_mem kv hkw)
      have hkey := stringText_writeString kv.1
      cases rest with
      | nil =>
          refine ⟨[], _, [], [], _, [], blank_nil, hkey, blank_nil, blank_nil, hhead, blank_nil, ?_⟩
          simp [mapValues]
      | cons kw rest =>
          refine ⟨[], _, [], [], _, [], _, blank_nil, hkey, blank_nil, blank_nil, hhead, blank_nil,
            htail, ?_⟩
          simp [mapValues, List.intercalate_cons_cons]

/-- **The canonical text is a JSON text of the value with its members sorted.** -/
theorem encode_text {v : Json String} (h : Numbers v) : Text (normal v) (encode v) := by
  induction v using Json.induct with
  | null => exact rfl
  | bool b => cases b <;> exact rfl
  | num n => exact ⟨rfl, h⟩
  | str s => exact stringText_writeString s
  | arr items ih =>
      have hitems := (every_arr _ _ items).mp h
      rw [normal_arr, encode, encodeItems_eq]
      exact ⟨_, rfl, itemsText_join fun v hv => ih v hv (hitems v hv)⟩
  | obj fields ih =>
      have hfields := ((every_obj _ _ fields).mp h).2
      have hperm := sortMembers_perm fields
      rw [normal_obj, encode, encodeFields_eq, insertionSort_bytesLe, sortMembers_mapValues,
        sortMembers_mapValues]
      refine ⟨_, rfl, fieldsText_join ?_⟩
      intro kv hkv
      have hmem : kv ∈ fields := hperm.mem_iff.mp hkv
      exact ih kv hmem (hfields kv hmem)

/-! ## What the decoder returns -/

/-- An assignment keeps the keys and puts a new one behind them. -/
private theorem keys_assign {α : Type} (m : List (String × α)) (k : String) (v : α) :
    (assign m k v).map Prod.fst =
      if k ∈ m.map Prod.fst then m.map Prod.fst else m.map Prod.fst ++ [k] := by
  unfold assign
  split
  · rw [List.map_map]
    refine List.map_congr_left ?_
    intro kv _
    by_cases heq : kv.1 = k <;> simp [heq]
  · simp

/-- Members are assigned one by one. -/
theorem assignAll_cons {α : Type} (m : List (String × α)) (kv : String × α)
    (rest : List (String × α)) :
    assignAll m (kv :: rest) = assignAll (assign m kv.1 kv.2) rest := rfl

/-- A map has one member for each key, and each member was assigned. -/
theorem assignAll_spec {α : Type} {P : α → Prop} {m fields : List (String × α)}
    (hkeys : (m.map Prod.fst).Nodup) (hm : ∀ kv ∈ m, P kv.2) (h : ∀ kv ∈ fields, P kv.2) :
    ((assignAll m fields).map Prod.fst).Nodup ∧ ∀ kv ∈ assignAll m fields, P kv.2 := by
  induction fields generalizing m with
  | nil => exact ⟨hkeys, hm⟩
  | cons kv rest ih =>
      rw [assignAll_cons]
      refine ih ?_ ?_ fun kw hkw => h kw (List.mem_cons_of_mem kv hkw)
      · rw [keys_assign]
        split
        · exact hkeys
        · next hnew => exact List.nodup_append_comm.mpr (List.nodup_cons.mpr ⟨hnew, hkeys⟩)
      · intro kw hkw
        unfold assign at hkw
        split at hkw
        · obtain ⟨old, hold, heq⟩ := List.mem_map.mp hkw
          split at heq
          · rw [← heq]
            exact h kv List.mem_cons_self
          · rw [← heq]
            exact hm old hold
        · rcases List.mem_append.mp hkw with hkw | hkw
          · exact hm kw hkw
          · obtain rfl : kw = (kv.1, kv.2) := by simpa using hkw
            exact h kv List.mem_cons_self

/-- With different keys the members stay as they are. -/
theorem assignAll_of_nodup {α : Type} {m fields : List (String × α)}
    (h : ((m ++ fields).map Prod.fst).Nodup) : assignAll m fields = m ++ fields := by
  induction fields generalizing m with
  | nil => simp [assignAll]
  | cons kv rest ih =>
      have hnew : kv.1 ∉ m.map Prod.fst := by
        rw [List.map_append, List.map_cons] at h
        have hdisjoint := (List.nodup_append.mp h).2.2
        intro hmem
        exact hdisjoint _ hmem _ List.mem_cons_self rfl
      have hstep : assign m kv.1 kv.2 = m ++ [kv] := by simp [assign, hnew]
      have hshape : m ++ kv :: rest = m ++ [kv] ++ rest := by simp
      rw [hshape] at h
      rw [assignAll_cons, hstep, ih h, hshape]

/-- The decoded value is a map at every level. -/
theorem decoded_spec {v : Json String} (h : Numbers v) :
    Numbers (decoded v) ∧ (decoded v).UniqueKeys := by
  induction v using Json.induct with
  | null => exact ⟨trivial, trivial⟩
  | bool b => exact ⟨trivial, trivial⟩
  | num n => exact ⟨h, trivial⟩
  | str s => exact ⟨trivial, trivial⟩
  | arr items ih =>
      have hitems := (every_arr _ _ items).mp h
      rw [decoded, decodedItems_eq]
      refine ⟨(every_arr _ _ _).mpr ?_, (uniqueKeys_arr _).mpr ?_⟩
      · intro w hw
        obtain ⟨v, hv, rfl⟩ := List.mem_map.mp hw
        exact (ih v hv (hitems v hv)).1
      · intro w hw
        obtain ⟨v, hv, rfl⟩ := List.mem_map.mp hw
        exact (ih v hv (hitems v hv)).2
  | obj fields ih =>
      have hfields := ((every_obj _ _ fields).mp h).2
      have hvalues : ∀ kv ∈ mapValues decoded fields, Numbers kv.2 ∧ kv.2.UniqueKeys := by
        intro kv hkv
        obtain ⟨kw, hkw, rfl⟩ := List.mem_map.mp hkv
        exact ih kw hkw (hfields kw hkw)
      obtain ⟨hkeys, hall⟩ := assignAll_spec (P := fun v => Numbers v ∧ v.UniqueKeys)
        (m := []) List.nodup_nil (by simp) hvalues
      rw [decoded, decodedFields_eq]
      exact ⟨(every_obj _ _ _).mpr ⟨trivial, fun kv hkv => (hall kv hkv).1⟩,
        (uniqueKeys_obj _).mpr ⟨hkeys, fun kv hkv => (hall kv hkv).2⟩⟩

/-- A value without repeated keys is decoded as it stands. -/
theorem decoded_of_uniqueKeys {v : Json String} (h : v.UniqueKeys) : decoded v = v := by
  induction v using Json.induct with
  | null => rfl
  | bool b => rfl
  | num n => rfl
  | str s => rfl
  | arr items ih =>
      have hitems := (uniqueKeys_arr items).mp h
      have hmap : items.map decoded = items :=
        (List.map_congr_left fun v hv => ih v hv (hitems v hv)).trans (List.map_id' items)
      rw [decoded, decodedItems_eq, hmap]
  | obj fields ih =>
      obtain ⟨hkeys, hfields⟩ := (uniqueKeys_obj fields).mp h
      have hmap : mapValues decoded fields = fields :=
        (mapValues_congr (g := id) fun kv hkv => ih kv hkv (hfields kv hkv)).trans
          (List.map_id' fields)
      rw [decoded, decodedFields_eq, hmap, assignAll_of_nodup (by simpa using hkeys),
        List.nil_append]

/-- A text of items has a text for each of them. -/
theorem itemsText_mem {items : List (Json String)} {body : List Char} (h : ItemsText items body)
    {v : Json String} (hv : v ∈ items) : ∃ t, Text v t := by
  induction items generalizing body with
  | nil => exact nomatch hv
  | cons w rest ih =>
      cases rest with
      | nil =>
          obtain ⟨_, t, _, _, ht, _, _⟩ := h
          obtain rfl : v = w := by simpa using hv
          exact ⟨t, ht⟩
      | cons u rest =>
          obtain ⟨_, t, _, _, _, ht, _, hbody, _⟩ := h
          rcases List.mem_cons.mp hv with rfl | hv
          · exact ⟨t, ht⟩
          · exact ih hbody hv

/-- Each value of the fields has a text when the fields have one. -/
theorem fieldsText_mem {fields : List (String × Json String)} {body : List Char}
    (h : FieldsText fields body) {kv : String × Json String} (hkv : kv ∈ fields) :
    ∃ t, Text kv.2 t := by
  induction fields generalizing body with
  | nil => exact nomatch hkv
  | cons kw rest ih =>
      cases rest with
      | nil =>
          obtain ⟨_, _, _, _, t, _, _, _, _, _, ht, _, _⟩ := h
          obtain rfl : kv = kw := by simpa using hkv
          exact ⟨t, ht⟩
      | cons ku rest =>
          obtain ⟨_, _, _, _, t, _, _, _, _, _, _, ht, _, hbody, _⟩ := h
          rcases List.mem_cons.mp hkv with rfl | hkv
          · exact ⟨t, ht⟩
          · exact ih hbody hkv

/-- The numbers of a text are number texts. -/
theorem numbers_of_text {v : Json String} {t : List Char} (h : Text v t) : Numbers v := by
  induction v using Json.induct generalizing t with
  | null => exact trivial
  | bool b => exact trivial
  | num n =>
      obtain ⟨rfl, hnumber⟩ := h
      exact hnumber
  | str s => exact trivial
  | arr items ih =>
      obtain ⟨body, -, hbody⟩ := h
      refine (every_arr _ _ items).mpr ?_
      intro v hv
      obtain ⟨u, hu⟩ := itemsText_mem hbody hv
      exact ih v hv hu
  | obj fields ih =>
      obtain ⟨body, -, hbody⟩ := h
      refine (every_obj _ _ fields).mpr ⟨trivial, ?_⟩
      intro kv hkv
      obtain ⟨u, hu⟩ := fieldsText_mem hbody hkv
      exact ih kv hkv hu

/-! ## Integers -/

/-- Integers are written in decimal, the negative ones with a sign. -/
theorem intText_toList (n : Int) :
    (intText n).toList = match n with
      | .ofNat m => Nat.toDigits 10 m
      | .negSucc m => '-' :: Nat.toDigits 10 (m + 1) := by
  cases n with
  | ofNat m => exact String.toList_ofList
  | negSucc m =>
      have hneg : intText (.negSucc m) = "-" ++ Nat.repr (m + 1) := rfl
      rw [hneg, String.toList_append]
      exact congrArg (['-'] ++ ·) String.toList_ofList

/-- Decimal digits are digits of JSON. -/
theorem isDigit_of_mem_toDigits {n : Nat} {c : Char} (hc : c ∈ Nat.toDigits 10 n) :
    isDigit c = true := by
  have hdigits : ∀ d < 10, isDigit (Nat.digitChar d) = true := by decide
  obtain ⟨d, hd, rfl⟩ := exists_digit_of_mem_toDigits (by decide) hc
  exact hdigits d hd

/-- A positive numeral does not start with a zero. -/
theorem head?_toDigits {n : Nat} (hn : 0 < n) : (Nat.toDigits 10 n).head? ≠ some '0' := by
  induction n using Nat.strongRecOn with
  | ind n ih =>
      by_cases hlt : n < 10
      · have hdigits : ∀ d < 10, 0 < d → Nat.digitChar d ≠ '0' := by decide
        rw [Nat.toDigits_of_lt_base hlt]
        simpa using hdigits n hlt hn
      · have hdiv : n / 10 < n := by omega
        have hpos : 0 < n / 10 := by omega
        have hhead := ih (n / 10) hdiv hpos
        rw [Nat.toDigits_of_base_le (by decide) (by omega)]
        obtain ⟨c, tail, heq⟩ :=
          List.exists_cons_of_ne_nil (Nat.toDigits_ne_nil (b := 10) (n := n / 10))
        rw [heq] at hhead ⊢
        simpa using hhead

/-- A natural number is written as an integer part. -/
theorem intPart_toDigits (n : Nat) : IntPart (Nat.toDigits 10 n) := by
  rcases Nat.eq_zero_or_pos n with rfl | hpos
  · exact Or.inl (by decide)
  · exact Or.inr ⟨⟨Nat.toDigits_ne_nil, fun c hc => isDigit_of_mem_toDigits hc⟩, head?_toDigits hpos⟩

/-- An integer is written as a number. -/
theorem isNumber_intText (n : Int) : IsNumber (intText n).toList := by
  rw [intText_toList]
  cases n with
  | ofNat m => exact ⟨[], _, [], [], Or.inl rfl, intPart_toDigits m, Or.inl rfl, Or.inl rfl, by simp⟩
  | negSucc m =>
      exact ⟨['-'], _, [], [], Or.inr rfl, intPart_toDigits (m + 1), Or.inl rfl, Or.inl rfl, by simp⟩

/-- Different numbers have different digits. -/
theorem toDigits_injective {m n : Nat} (h : Nat.toDigits 10 m = Nat.toDigits 10 n) : m = n := by
  have hread := number?_toDigits (by decide) readsDigits_dec m
  rw [h, number?_toDigits (by decide) readsDigits_dec n] at hread
  exact (Option.some.inj hread).symm

/-- Different integers have different texts. -/
theorem intText_injective : Function.Injective intText := by
  intro m n h
  have htext : (intText m).toList = (intText n).toList := by rw [h]
  have hminus : ∀ k : Nat, '-' ∉ Nat.toDigits 10 k := by
    intro k hmem
    exact absurd (isDigit_of_mem_toDigits hmem) (by decide)
  rw [intText_toList, intText_toList] at htext
  cases m with
  | ofNat m =>
      cases n with
      | ofNat n => rw [toDigits_injective htext]
      | negSucc n =>
          dsimp only at htext
          exact absurd (by rw [htext]; exact List.mem_cons_self) (hminus m)
  | negSucc m =>
      cases n with
      | ofNat n =>
          dsimp only at htext
          exact absurd (by rw [← htext]; exact List.mem_cons_self) (hminus n)
      | negSucc n =>
          have hsucc := toDigits_injective (List.cons.inj htext).2
          rw [Nat.succ.inj hsucc]

/-- The numbers of a value are written as integers. -/
theorem numbers_mapNum (v : Json Int) : Numbers (v.mapNum intText) := by
  induction v using Json.induct with
  | null => exact trivial
  | bool b => exact trivial
  | num n => exact isNumber_intText n
  | str s => exact trivial
  | arr items ih =>
      rw [mapNum_arr]
      refine (every_arr _ _ _).mpr ?_
      intro w hw
      obtain ⟨v, hv, rfl⟩ := List.mem_map.mp hw
      exact ih v hv
  | obj fields ih =>
      rw [mapNum_obj]
      refine (every_obj _ _ _).mpr ⟨trivial, ?_⟩
      intro kw hkw
      obtain ⟨kv, hkv, rfl⟩ := List.mem_map.mp hkw
      exact ih kv hkv

/-- The canonical text determines the value. -/
theorem canonicalJson_injective {v w : Json Int} (h : canonicalJson v = canonicalJson w) :
    Reordered v w := by
  have hv := encode_text (numbers_mapNum v)
  have hw := encode_text (numbers_mapNum w)
  unfold canonicalJson at h
  rw [dumps_eq_encode, dumps_eq_encode] at h
  rw [h] at hv
  have heq := hv.unique hw
  rw [normal_mapNum, normal_mapNum] at heq
  have hnormal := mapNum_injective intText_injective heq
  have hback := (reordered_normal w).symm
  rw [← hnormal] at hback
  exact .trans (reordered_normal v) hback

/-- The order of members does not show in the canonical text. -/
theorem canonicalJson_of_reordered {v w : Json Int} (hv : v.UniqueKeys) (h : Reordered v w) :
    canonicalJson v = canonicalJson w := by
  have hnormal := (reordered_iff hv).mp h
  unfold canonicalJson
  rw [dumps_eq_encode, dumps_eq_encode, ← encode_normal, ← encode_normal (w.mapNum intText),
    normal_mapNum, normal_mapNum, hnormal]

/-! ## The end of the input -/

/-- The input is one value, with blanks around it and nothing else. -/
def OneValue (raw : List Nat) : Prop :=
  ∃ v a u b, Blank a ∧ Text v u ∧ Blank b ∧ Utf8.decode raw = a ++ (u ++ b)

/-- A closing bracket or brace is the first thing behind the first value. -/
def ClosesBehind (raw : List Nat) : Prop :=
  ∃ v a u b c rest, Blank a ∧ Text v u ∧ Blank b ∧ (c = ']' ∨ c = '}') ∧
    Utf8.decode raw = a ++ (u ++ (b ++ c :: rest))

/-- The input is a text of the value: blanks around it, members of every object in
any order, any escaping of strings, integers as decimal numerals. -/
def Encodes (v : Json Int) (raw : List Nat) : Prop :=
  ∃ w a u b, Reordered v w ∧ Blank a ∧ Text (w.mapNum intText) u ∧ Blank b ∧
    raw = Utf8.bytes (a ++ (u ++ b))

/-- What the two sides rely on, for one input of the agent. -/
structure HashesTheSame (raw : List Nat) : Prop where
  agrees : ∀ v : Json Int, v.UniqueKeys → Encodes v raw →
    canonical raw = .ok (Utf8.bytes (canonicalJson v))
  idempotent : ∀ out, canonical raw = .ok out → canonical out = .ok out
  injective : ∀ (v w : Json Int) (raw' : List Nat), v.UniqueKeys → w.UniqueKeys →
    Encodes v raw → Encodes w raw' → canonical raw = canonical raw' → Reordered v w
  accepts : (∃ out, canonical raw = .ok out) ↔ OneValue raw

/-- The decoder expects no more values when only blanks are left, or a closing bracket follows. -/
theorem more_eq_false_iff {rest : List Char} :
    more rest = false ↔ Blank rest ∨ ∃ b c tail, Blank b ∧ (c = ']' ∨ c = '}') ∧
      rest = b ++ c :: tail := by
  obtain ⟨b, hb, hrest⟩ := exists_blank_append_skip rest
  unfold more
  cases hskip : skip rest with
  | nil =>
      rw [hskip, List.append_nil] at hrest
      rw [hrest]
      exact iff_of_true rfl (Or.inl hb)
  | cons c tail =>
      have hc : isBlank c = false := by
        have hhead := List.head?_dropWhile_not isBlank rest
        unfold skip at hskip
        rw [hskip] at hhead
        simpa using hhead
      rw [hskip] at hrest
      constructor
      · intro hclose
        refine Or.inr ⟨b, c, tail, hb, ?_, hrest⟩
        by_contra hother
        rw [not_or] at hother
        simp [hother.1, hother.2] at hclose
      · rintro (hblank | ⟨b', c', tail', hb', hc', hrest'⟩)
        · have hmem : c ∈ rest := by
            rw [hrest]
            simp
          rw [hblank c hmem] at hc
          exact nomatch hc
        · have hclosed : isBlank c' = false := by rcases hc' with rfl | rfl <;> decide
          rw [hrest', skip_token hb' hclosed] at hskip
          obtain ⟨rfl, -⟩ := List.cons.inj hskip
          rcases hc' with rfl | rfl <;> rfl

/-- What the decoder takes off an input: blanks, and a text of the grammar. -/
theorem decodeValue_text {raw : List Nat} {a u rest : List Char} {v : Json String} (ha : Blank a)
    (hu : Text v u) (hrest : Follows rest) (hraw : Utf8.decode raw = a ++ (u ++ rest)) :
    decodeValue raw = .ok (decoded v, rest) := by
  have hfuel : u.length < (u ++ rest).length + 1 := by
    rw [List.length_append]
    omega
  unfold decodeValue
  rw [hraw, skip_text ha hu, readValue_text hu hrest hfuel]

/-- What is decoded is the value of a text that stands at the beginning, behind blanks. -/
theorem decodeValue_sound {raw : List Nat} {d : Json String} {rest : List Char}
    (h : decodeValue raw = .ok (d, rest)) :
    ∃ v a u, Blank a ∧ Text v u ∧ d = decoded v ∧ Utf8.decode raw = a ++ (u ++ rest) := by
  obtain ⟨a, ha, hraw⟩ := exists_blank_append_skip (Utf8.decode raw)
  unfold decodeValue at h
  split at h
  · next v r hread =>
      obtain ⟨rfl, rfl⟩ := Prod.mk.inj (Except.ok.inj h)
      obtain ⟨u, hu, hskip⟩ := readValue_sound hread
      exact ⟨v, a, u, ha, hu, rfl, by rw [← hskip, ← hraw]⟩
  · exact nomatch h

/-- A canonical text is the encoding of what was decoded, where nothing more was there. -/
theorem canonical_ok {raw out : List Nat} : canonical raw = .ok out ↔
    ∃ d rest, decodeValue raw = .ok (d, rest) ∧ more rest = false ∧ out = Utf8.bytes (encode d) := by
  unfold canonical
  constructor
  · intro h
    obtain ⟨⟨d, rest⟩, hvalue, h⟩ := bind_ok.mp h
    obtain ⟨_, hmore, h⟩ := bind_ok.mp h
    rw [failIf_ok, Bool.not_eq_true] at hmore
    exact ⟨d, rest, hvalue, hmore, (Except.ok.inj h).symm⟩
  · rintro ⟨d, rest, hvalue, hmore, rfl⟩
    refine bind_ok.mpr ⟨(d, rest), hvalue, bind_ok.mpr ⟨(), ?_, rfl⟩⟩
    rw [failIf_ok, hmore]
    decide

/-- The canonical text of one value, with blanks around it. -/
theorem canonical_of_text {raw : List Nat} {a u b : List Char} {v : Json String} (ha : Blank a)
    (hu : Text v u) (hb : Blank b) (hraw : Utf8.decode raw = a ++ (u ++ b)) :
    canonical raw = .ok (Utf8.bytes (encode (decoded v))) :=
  canonical_ok.mpr ⟨_, b, decodeValue_text ha hu (follows_blank hb) hraw,
    more_eq_false_iff.mpr (Or.inl hb), rfl⟩

/-- The canonical text of an encoded value is that of the value. -/
theorem canonical_of_encodes {v : Json Int} {raw : List Nat} (hv : v.UniqueKeys)
    (h : Encodes v raw) : canonical raw = .ok (Utf8.bytes (canonicalJson v)) := by
  obtain ⟨w, a, u, b, hsame, ha, hu, hb, rfl⟩ := h
  have hw : (w.mapNum intText).UniqueKeys := uniqueKeys_mapNum (hsame.normal_eq hv).1
  have hdumps : canonicalJson v = encode (w.mapNum intText) :=
    (canonicalJson_of_reordered hv hsame).trans (dumps_eq_encode w)
  rw [canonical_of_text ha hu hb (Utf8.decode_bytes _), decoded_of_uniqueKeys hw, hdumps]

/-- A canonical text is its own. -/
theorem canonical_idempotent {raw out : List Nat} (h : canonical raw = .ok out) :
    canonical out = .ok out := by
  obtain ⟨d, rest, hvalue, -, rfl⟩ := canonical_ok.mp h
  obtain ⟨v, a, u, -, hu, rfl, -⟩ := decodeValue_sound hvalue
  obtain ⟨hnumbers, hunique⟩ := decoded_spec (numbers_of_text hu)
  have htext := encode_text hnumbers
  have hraw : Utf8.decode (Utf8.bytes (encode (decoded v))) = [] ++ (encode (decoded v) ++ []) := by
    rw [Utf8.decode_bytes, List.nil_append, List.append_nil]
  rw [canonical_of_text blank_nil htext blank_nil hraw,
    decoded_of_uniqueKeys (uniqueKeys_normal hunique), encode_normal]

/-- Texts with one canonical text encode the same value, up to the order of members. -/
theorem canonical_injective {v w : Json Int} {raw raw' : List Nat} (hv : v.UniqueKeys)
    (hw : w.UniqueKeys) (hraw : Encodes v raw) (hraw' : Encodes w raw')
    (h : canonical raw = canonical raw') : Reordered v w := by
  rw [canonical_of_encodes hv hraw, canonical_of_encodes hw hraw'] at h
  exact canonicalJson_injective (Utf8.bytes_injective (Except.ok.inj h))

/-- An input that closes behind its first value is accepted, and is more than one value. -/
theorem closesBehind_accepted {raw : List Nat} (h : ClosesBehind raw) :
    (∃ out, canonical raw = .ok out) ∧ ¬ OneValue raw := by
  obtain ⟨v, a, u, b, c, rest, ha, hu, hb, hc, hraw⟩ := h
  have hfollows : Follows (b ++ c :: rest) := follows_blank_append hb (Or.inr hc) rest
  have hvalue := decodeValue_text ha hu hfollows hraw
  have hmore : more (b ++ c :: rest) = false :=
    more_eq_false_iff.mpr (Or.inr ⟨b, c, rest, hb, hc, rfl⟩)
  refine ⟨⟨_, canonical_ok.mpr ⟨_, _, hvalue, hmore, rfl⟩⟩, ?_⟩
  rintro ⟨w, a', u', b', ha', hu', hb', hraw'⟩
  rw [decodeValue_text ha' hu' (follows_blank hb') hraw'] at hvalue
  obtain ⟨-, hrest⟩ := Prod.mk.inj (Except.ok.inj hvalue)
  have hmem : c ∈ b' := by
    rw [hrest]
    simp
  have hblank := hb' c hmem
  rcases hc with rfl | rfl <;> exact absurd hblank (by decide)

/-- **The contract of the canonical form** holds of every input except those that
close a bracket or a brace behind their first value. -/
theorem hashesTheSame_iff (raw : List Nat) : HashesTheSame raw ↔ ¬ ClosesBehind raw := by
  constructor
  · intro h hcloses
    obtain ⟨haccepted, hmore⟩ := closesBehind_accepted hcloses
    exact hmore (h.accepts.mp haccepted)
  · intro h
    refine ⟨fun v hv => canonical_of_encodes hv, fun out => canonical_idempotent,
      fun v w raw' hv hw => canonical_injective hv hw, ?_⟩
    constructor
    · rintro ⟨out, hout⟩
      obtain ⟨d, rest, hvalue, hmore, -⟩ := canonical_ok.mp hout
      obtain ⟨v, a, u, ha, hu, -, hraw⟩ := decodeValue_sound hvalue
      rcases more_eq_false_iff.mp hmore with hblank | ⟨b, c, tail, hb, hc, rfl⟩
      · exact ⟨v, a, u, rest, ha, hu, hblank, hraw⟩
      · exact absurd ⟨v, a, u, b, c, tail, ha, hu, hb, hc, hraw⟩ h
    · rintro ⟨v, a, u, b, ha, hu, hb, hraw⟩
      exact ⟨_, canonical_of_text ha hu hb hraw⟩

/-- A closing bracket behind the value goes unnoticed. -/
theorem closing_bracket_accepted :
    canonical (Utf8.bytes "\x7b\x7d]".toList) = .ok (Utf8.bytes "\x7b\x7d".toList) ∧
      ¬ HashesTheSame (Utf8.bytes "\x7b\x7d]".toList) := by
  have hraw : Utf8.decode (Utf8.bytes "\x7b\x7d]".toList) =
      [] ++ ("\x7b\x7d".toList ++ ([] ++ ']' :: [])) := by
    rw [Utf8.decode_bytes]
    rfl
  have hempty : Text (.obj []) "\x7b\x7d".toList := ⟨[], rfl, blank_nil⟩
  obtain ⟨haccepted, hmore⟩ := closesBehind_accepted
    ⟨_, [], _, [], ']', [], blank_nil, hempty, blank_nil, Or.inl rfl, hraw⟩
  refine ⟨by decide +kernel, ?_⟩
  intro h
  exact hmore (h.accepts.mp haccepted)

end Canon

end AdguardAdmin
