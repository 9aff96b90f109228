import AdguardAdmin.IpvsReaders
/-!
# Addresses in the kernel's file, and one way to print a table

The kernel's file writes an address in packed hexadecimal, an IPv6 address in brackets.
`decodeProcAddr_packed` reads every endpoint back, under the name that `net.IP` gives its
address: an IPv4-mapped address comes back as the IPv4 address.
-/

namespace AdguardAdmin.Ipvs

open GoText IpLiterals

/-! ## Packed hexadecimal -/

/-- An upper-case hexadecimal digit. -/
def hexChar (d : Nat) : Char := d.digitChar.toUpper

/-- `%02X` -/
def hexByte (n : Fin 256) : List Char := [hexChar (n.val / 16), hexChar (n.val % 16)]

/-- `%04X` -/
def hexGroup (n : Fin 65536) : List Char := hexByte (highByte n) ++ hexByte (lowByte n)

/-- The bytes of an address in network order. -/
def ipBytes : Ip → List (Fin 256)
  | .v4 x => [x.a, x.b, x.c, x.d]
  | .v6 x => x.groups.flatMap fun g => [highByte g, lowByte g]

/-- `C0A80237:0035`, `[20010DB8…]:0035` -/
def packedChars (e : Endpoint) : List Char :=
  let digits := (ipBytes e.ip).flatMap hexByte
  let host := match e.ip with
    | .v4 _ => digits
    | .v6 _ => '[' :: digits ++ [']']
  host ++ ':' :: hexGroup e.port

def packed (e : Endpoint) : String := String.ofList (packedChars e)

/-- A hexadecimal digit is read back. -/
theorem hexDigit?_hexChar : ∀ d < 16, hexDigit? (hexChar d) = some d := by decide

/-- A byte that is printed in hexadecimal is read back. -/
theorem hexBytes?_hexByte (n : Fin 256) (rest : List Char) :
    hexBytes? (hexByte n ++ rest) = (hexBytes? rest).map (n :: ·) := by
  have hn := n.isLt
  have hhigh : hexDigit? (hexChar (n.val / 16)) = some (n.val / 16) :=
    hexDigit?_hexChar _ (by omega)
  have hlow : hexDigit? (hexChar (n.val % 16)) = some (n.val % 16) :=
    hexDigit?_hexChar _ (by omega)
  have hvalue : low8 (16 * (n.val / 16) + n.val % 16) = n := by
    apply Fin.ext
    rw [Fin.val_ofNat, Nat.div_add_mod, Nat.mod_eq_of_lt hn]
  simp only [hexByte, List.cons_append, List.nil_append, hexBytes?, hhigh, hlow]
  cases hexBytes? rest with
  | none => rfl
  | some bytes => exact congrArg (fun m => some (m :: bytes)) hvalue

/-- Bytes are read back. -/
theorem hexBytes?_flatMap (bytes : List (Fin 256)) :
    hexBytes? (bytes.flatMap hexByte) = some bytes := by
  induction bytes with
  | nil => rfl
  | cons n bytes ih => rw [List.flatMap_cons, hexBytes?_hexByte, ih, Option.map_some]

/-- Two bytes make a group again. -/
theorem group_bytes (g : Fin 65536) : group (highByte g) (lowByte g) = g := by
  have hg := g.isLt
  apply Fin.ext
  simp only [group, highByte, lowByte, Fin.val_ofNat]
  omega

/-- The bytes of an address make it again, unmapped. -/
theorem ipOfBytes_ipBytes (ip : Ip) : ipOfBytes (ipBytes ip) = some (unmap ip) := by
  cases ip with
  | v4 x => rfl
  | v6 x =>
      obtain ⟨groups, hlength⟩ := x
      match groups, hlength with
      | [a, b, c, d, e, f, g, h], hlength => simp [ipBytes, ipOfBytes, group_bytes]

/-- A port is read back. -/
theorem parseHexPort_hexGroup (n : Fin 65536) : parseHexPort (hexGroup n) = some n.val := by
  have hn := n.isLt
  have hhigh := (highByte n).isLt
  have hlow := (lowByte n).isLt
  have hdigit : ∀ d, d < 16 → hexDigit? (hexChar d) = some d := hexDigit?_hexChar
  have hvalue : number? hexDigit? 16 (hexGroup n) = some n.val := by
    unfold number? hexGroup hexByte
    simp only [List.cons_append, List.nil_append, List.mapM_cons, List.mapM_nil,
      hdigit _ (show (highByte n).val / 16 < 16 by omega),
      hdigit _ (show (highByte n).val % 16 < 16 by omega),
      hdigit _ (show (lowByte n).val / 16 < 16 by omega),
      hdigit _ (show (lowByte n).val % 16 < 16 by omega)]
    have hsum : 256 * (highByte n).val + (lowByte n).val = n.val := by
      simp only [highByte, lowByte, Fin.val_ofNat]
      omega
    simp
    omega
  unfold parseHexPort
  rw [if_neg (by simp [hexGroup, hexByte]), hvalue]
  have hle : n.val ≤ 65535 := by omega
  simp [hle]

theorem hexChar_ne : ∀ d < 16, hexChar d ≠ ':' ∧ hexChar d ≠ '[' ∧ hexChar d ≠ ']' := by decide

/-- A byte consists of digits. -/
theorem mem_hexByte {n : Fin 256} {c : Char} (h : c ∈ hexByte n) : ∃ d < 16, c = hexChar d := by
  have hn := n.isLt
  simp only [hexByte, List.mem_cons, List.not_mem_nil, or_false] at h
  rcases h with rfl | rfl
  · exact ⟨_, by omega, rfl⟩
  · exact ⟨_, by omega, rfl⟩

/-- What is no digit is in no bytes. -/
theorem not_mem_hexBytes {c : Char} (hc : ∀ d < 16, hexChar d ≠ c) (bytes : List (Fin 256)) :
    c ∉ bytes.flatMap hexByte := by
  intro hmem
  obtain ⟨n, -, hn⟩ := List.mem_flatMap.mp hmem
  obtain ⟨d, hd, rfl⟩ := mem_hexByte hn
  exact hc d hd rfl

/-- A text without brackets is not trimmed. -/
theorem trimBrackets_plain {cs : List Char} (hopen : '[' ∉ cs) (hclose : ']' ∉ cs) :
    trimBrackets cs = cs := by
  have hhead : cs.head? ≠ some '[' := fun h => hopen (List.mem_of_head? h)
  have hlast : cs.getLast? ≠ some ']' := fun h => hclose (List.mem_of_getLast? h)
  simp only [trimBrackets, if_neg hhead, if_neg hlast]

theorem trimBrackets_bracketed (cs : List Char) : trimBrackets ('[' :: cs ++ [']']) = cs := by
  simp [trimBrackets]

/-- **Every endpoint is read back from packed hexadecimal.** -/
theorem decodeProcAddr_packed (e : Endpoint) :
    decodeProcAddr (packed e) =
      some (joinHostPort (ipString (unmap e.ip)) (toString e.port.val)) := by
  obtain ⟨ip, port⟩ := e
  have hcolon : ':' ∉ hexGroup port := by
    intro hmem
    rcases List.mem_append.mp hmem with hbyte | hbyte
    · obtain ⟨d, hd, hc⟩ := mem_hexByte hbyte
      exact (hexChar_ne d hd).1 hc.symm
    · obtain ⟨d, hd, hc⟩ := mem_hexByte hbyte
      exact (hexChar_ne d hd).1 hc.symm
  have hcut : ∀ host, cutLast (host ++ ':' :: hexGroup port) = some (host, hexGroup port) := by
    intro host
    have hreverse : (host ++ ':' :: hexGroup port).reverse =
        (hexGroup port).reverse ++ ':' :: host.reverse := by simp
    have hfound : cut? ':' (host ++ ':' :: hexGroup port).reverse =
        some ((hexGroup port).reverse, host.reverse) :=
      cut?_eq_some.mpr ⟨hreverse, by simpa using hcolon⟩
    rw [cutLast, hfound, Option.map_some, List.reverse_reverse, List.reverse_reverse]
  have htrim : trimBrackets (match ip with
      | .v4 _ => (ipBytes ip).flatMap hexByte
      | .v6 _ => '[' :: (ipBytes ip).flatMap hexByte ++ [']']) = (ipBytes ip).flatMap hexByte := by
    cases ip with
    | v4 x =>
        exact trimBrackets_plain (not_mem_hexBytes (fun d hd => (hexChar_ne d hd).2.1) _)
          (not_mem_hexBytes (fun d hd => (hexChar_ne d hd).2.2) _)
    | v6 x => exact trimBrackets_bracketed _
  unfold decodeProcAddr packed packedChars
  simp only [String.toList_ofList, hcut, Option.bind_eq_bind, Option.bind_some, htrim,
    parseHexPort_hexGroup, hexBytes?_flatMap, ipOfBytes_ipBytes]
  rfl

/-! ## One way to print a table -/

/-- The notation of `net.IP`. -/
def listName (e : Endpoint) : String := joinHostPort (ipString e.ip) (toString e.port.val)

/-- Endpoints are listed under different names. -/
theorem listName_injective : listName.Injective := by
  intro a b h
  have hsplit := splitHostPort_endpoint a.ip a.port.val
  have hsame : joinHostPort (ipString a.ip) (toString a.port.val) =
      joinHostPort (ipString b.ip) (toString b.port.val) := h
  rw [hsame, splitHostPort_endpoint, Option.some.injEq, Prod.mk.injEq] at hsplit
  have hport : b.port.val = a.port.val := by
    have hread := congrArg bigNum hsplit.2
    rwa [Nat.toString_eq_repr, Nat.toString_eq_repr, bigNum_repr, bigNum_repr] at hread
  obtain ⟨ip, port⟩ := a
  obtain ⟨ip', port'⟩ := b
  obtain rfl : ip' = ip := ipString_injective hsplit.1
  obtain rfl : port' = port := Fin.ext hport
  rfl

/-- A word of a line: it is not empty and has no blanks. -/
def IsWord (w : String) : Prop := w.toList ≠ [] ∧ ∀ c ∈ w.toList, isSpace c = false

instance decidableIsWord (w : String) : Decidable (IsWord w) :=
  @instDecidableAnd _ _ (inferInstanceAs (Decidable (w.toList ≠ []))) (List.decidableBAll _ _)

/-- Rows as lines of words. -/
def unrows (rows : List (List String)) : String :=
  String.ofList (['\n'].intercalate (rows.map fun row => [' '].intercalate (row.map String.toList)))

/-- Rows of words are read back, line by line. -/
theorem rowsOf_unrows {rows : List (List String)} (hne : rows ≠ []) (hrows : ∀ row ∈ rows, row ≠ [])
    (hwords : ∀ row ∈ rows, ∀ w ∈ row, IsWord w) :
    (rowsOf (unrows rows)).filter (· ≠ []) = rows := by
  have hline : ∀ row ∈ rows, '\n' ∉ [' '].intercalate (row.map String.toList) := by
    intro row hrow hmem
    rcases Fields.mem_intercalate hmem with hgap | ⟨cs, hcs, hc⟩
    · simp at hgap
    · obtain ⟨w, hw, rfl⟩ := List.mem_map.mp hcs
      exact absurd ((hwords row hrow w hw).2 _ hc) (by decide)
  have hfields : ∀ row ∈ rows, (Fields.fields isSpace ([' '].intercalate
      (row.map String.toList))).map String.ofList = row := by
    intro row hrow
    rw [Fields.fields_intercalate (by decide)]
    · rw [List.map_map]
      exact (List.map_congr_left fun w _ => String.ofList_toList).trans (List.map_id row)
    · intro cs hcs
      obtain ⟨w, hw, rfl⟩ := List.mem_map.mp hcs
      exact (hwords row hrow w hw).2
    · intro cs hcs
      obtain ⟨w, hw, rfl⟩ := List.mem_map.mp hcs
      exact (hwords row hrow w hw).1
  have hsplit : rowsOf (unrows rows) = rows := by
    unfold rowsOf unrows
    rw [String.toList_ofList, List.splitOn_intercalate '\n']
    · rw [List.map_map]
      exact (List.map_congr_left hfields).trans (List.map_id rows)
    · intro line hmem
      obtain ⟨row, hrow, rfl⟩ := List.mem_map.mp hmem
      exact hline row hrow
    · simpa using hne
  rw [hsplit, List.filter_eq_self]
  intro row hrow
  simpa using hrows row hrow

/-- The title of the plain listing and of the kernel's file. -/
def titleRows : List (List String) :=
  [["IP", "Virtual", "Server", "version", "1.2.1", "(size=4096)"],
    ["Prot", "LocalAddress:Port", "Scheduler", "Flags"],
    ["->", "RemoteAddress:Port", "Forward", "Weight", "ActiveConn", "InActConn"]]

/-- The columns behind are not read. -/
def titleLayout (mark : Nat → String) : Layout where
  title := titleRows
  mark := mark
  columns := fun _ => ["wlc"]
  forward := fun _ => "Route"

/-- Characters of literals are no spaces. -/
theorem isSpace_of_literal {c : Char} (h : isLiteralChar c = true) : isSpace c = false := by
  have hrange : 46 ≤ c.toNat ∧ c.toNat ≤ 102 := by
    unfold isLiteralChar hexDigit? at h
    simp only [Char.le_def, UInt32.le_iff_toNat_le] at h
    have hchars : '0'.val.toNat = 48 ∧ '9'.val.toNat = 57 ∧ 'a'.val.toNat = 97 ∧
        'f'.val.toNat = 102 ∧ 'A'.val.toNat = 65 ∧ 'F'.val.toNat = 70 := by decide
    by_cases hdot : c = '.'
    · subst hdot; decide
    by_cases hcolon : c = ':'
    · subst hcolon; decide
    simp only [hdot, hcolon, decide_false, Bool.or_false] at h
    unfold Char.toNat
    split at h
    · omega
    split at h
    · omega
    split at h
    · omega
    · cases h
  have hnot : ∀ n, 46 ≤ n → n ≤ 102 → n ∉ [0x09, 0x0a, 0x0b, 0x0c, 0x0d, 0x20, 0x85, 0xa0, 0x1680,
      0x2028, 0x2029, 0x202f, 0x205f, 0x3000] := by
    intro n hlow hhigh hmem
    simp only [List.mem_cons, List.not_mem_nil, or_false] at hmem
    omega
  unfold isSpace
  rw [decide_eq_false (hnot c.toNat hrange.1 hrange.2), Bool.false_or]
  simp only [Bool.and_eq_false_iff, decide_eq_false_iff_not]
  omega

/-- The digits of a number are not blanks. -/
theorem isSpace_of_digit {n : Nat} {c : Char} (h : c ∈ n.repr.toList) : isSpace c = false := by
  have hchars : n.repr.toList = Nat.toDigits 10 n := String.toList_ofList
  rw [hchars] at h
  have hdigit := hexDigit?_of_decDigit? (decDigit?_of_mem_toDigits h)
  exact isSpace_of_literal (by simp [isLiteralChar, hdigit])

/-- A number is a word. -/
theorem isWord_repr (n : Nat) : IsWord n.repr := by
  have hchars : n.repr.toList = Nat.toDigits 10 n := String.toList_ofList
  refine ⟨?_, fun c hc => isSpace_of_digit hc⟩
  rw [hchars]
  exact Nat.toDigits_ne_nil

/-- The name of an endpoint in a listing is a word. -/
theorem isWord_listName (e : Endpoint) : IsWord (listName e) := by
  have hsplit := splitHostPort_endpoint e.ip e.port.val
  constructor
  · intro hempty
    have hnone : splitHostPort (listName e) = none := by
      rw [splitHostPort, hempty]
      rfl
    rw [listName, hsplit] at hnone
    cases hnone
  · intro c hc
    rcases mem_of_splitHostPort hsplit c hc with hhost | hport | rfl | rfl | rfl
    · exact isSpace_of_literal (ipString_chars e.ip c hhost)
    · exact isSpace_of_digit hport
    · decide
    · decide
    · decide

/-- The digits of a byte are not spaces. -/
theorem isSpace_of_hexByte {n : Fin 256} {c : Char} (h : c ∈ hexByte n) : isSpace c = false := by
  have hspace : ∀ d < 16, isSpace (hexChar d) = false := by decide
  obtain ⟨d, hd, rfl⟩ := mem_hexByte h
  exact hspace d hd

/-- The hexadecimal digits of two bytes are not blanks. -/
theorem isSpace_of_hexGroup {n : Fin 65536} {c : Char} (h : c ∈ hexGroup n) :
    isSpace c = false := by
  rcases List.mem_append.mp h with hbyte | hbyte
  · exact isSpace_of_hexByte hbyte
  · exact isSpace_of_hexByte hbyte

/-- A packed address is a word. -/
theorem isWord_packed (e : Endpoint) : IsWord (packed e) := by
  have hbytes : ∀ bytes : List (Fin 256), ∀ c ∈ bytes.flatMap hexByte, isSpace c = false := by
    intro bytes c hc
    obtain ⟨n, -, hn⟩ := List.mem_flatMap.mp hc
    exact isSpace_of_hexByte hn
  unfold IsWord packed
  rw [String.toList_ofList]
  refine ⟨by simp [packedChars], fun c hc => ?_⟩
  unfold packedChars at hc
  dsimp only at hc
  rcases List.mem_append.mp hc with hhost | hrest
  · split at hhost
    · exact hbytes _ c hhost
    · rw [List.mem_append, List.mem_cons, List.mem_singleton] at hhost
      rcases hhost with (rfl | hdigit) | rfl
      · decide
      · exact hbytes _ c hdigit
      · decide
  · rcases List.mem_cons.mp hrest with rfl | hdigit
    · decide
    · exact isSpace_of_hexGroup hdigit

/-- The kernel's file has the 32 bits of a mark in `%08X`. -/
def hexMark (n : Nat) : String :=
  String.ofList (hexGroup (low16 (n / 65536)) ++ hexGroup (low16 n))

/-- A mark in hexadecimal is a word. -/
theorem isWord_hexMark (n : Nat) : IsWord (hexMark n) := by
  unfold IsWord hexMark
  rw [String.toList_ofList]
  refine ⟨by simp [hexGroup, hexByte], fun c hc => ?_⟩
  rcases List.mem_append.mp hc with hhigh | hlow
  · exact isSpace_of_hexGroup hhigh
  · exact isSpace_of_hexGroup hlow

/-- Rows in this layout are lines of words. -/
theorem rowsOf_printed {name : Endpoint → String} {mark : Nat → String}
    (hname : ∀ e, IsWord (name e)) (hnumber : ∀ n, IsWord (mark n)) (kind : Kind) (t : Table) :
    (rowsOf (unrows (printedRows name (titleLayout mark) kind t))).filter (· ≠ []) =
      printedRows name (titleLayout mark) kind t := by
  have htitle : ∀ row ∈ titleRows, row ≠ [] ∧ ∀ w ∈ row, IsWord w := by
    decide
  have hhead : ∀ svc, headRow name (titleLayout mark) svc ≠ [] ∧
      ∀ w ∈ headRow name (titleLayout mark) svc, IsWord w := by
    intro svc
    have hwlc : IsWord "wlc" := by decide
    unfold headRow titleLayout
    cases svc.name with
    | address proto e =>
        have hproto : IsWord proto.text := by cases proto <;> decide
        simp [hproto, hname, hwlc]
    | mark n =>
        have hmark : IsWord "FWM" := by decide
        simp [hmark, hnumber, hwlc]
  have hdest : ∀ d : Dest,
      ∀ w ∈ "->" :: name d.server :: destColumns (titleLayout mark).forward kind d, IsWord w := by
    intro d
    have harrow : IsWord "->" := by decide
    have hroute : IsWord "Route" := by decide
    cases kind <;> simp [destColumns, titleLayout, harrow, hname, hroute, isWord_repr]
  have hall : ∀ row ∈ printedRows name (titleLayout mark) kind t, row ≠ [] ∧ ∀ w ∈ row, IsWord w := by
    intro row hrow
    rcases List.mem_append.mp hrow with htop | hbody
    · exact htitle row htop
    · obtain ⟨svc, -, hsvc⟩ := List.mem_flatMap.mp hbody
      rcases List.mem_cons.mp hsvc with rfl | hrest
      · exact hhead svc
      · obtain ⟨d, -, rfl⟩ := List.mem_map.mp hrest
        exact ⟨by simp, hdest d⟩
  exact rowsOf_unrows (by simp [printedRows, titleLayout, titleRows])
    (fun row hrow => (hall row hrow).1) fun row hrow => (hall row hrow).2

/-- No endpoint is called like the title. -/
theorem listName_ne (e : Endpoint) : listName e ≠ "RemoteAddress:Port" := by
  intro heq
  have hsplit := splitHostPort_endpoint e.ip e.port.val
  have htitle : splitHostPort "RemoteAddress:Port" = some ("RemoteAddress", "Port") := by
    decide +kernel
  have hhost : "RemoteAddress" = ipString e.ip := by
    rw [← listName, heq, htitle] at hsplit
    exact congrArg Prod.fst (Option.some.inj hsplit)
  have hliteral := ipString_chars e.ip 'R' (by rw [← hhost]; decide)
  exact absurd hliteral (by decide)

/-- Listings and the kernel's file as they are printed for addresses that `net.IP` and
`inet_ntop` write alike. -/
def plainPrints : Prints where
  name := listName
  hexName := packed
  listed := fun _ => titleLayout toString
  proc := titleLayout hexMark
  listing := fun kind t => unrows (printedRows listName (titleLayout toString) kind t)
  procText := fun t => unrows (printedRows packed (titleLayout hexMark) .plain t)
  name_injective := listName_injective
  name_ne := listName_ne
  listed_title := by intro kind; decide
  proc_title := by decide
  rows_listing := fun kind t => rowsOf_printed isWord_listName isWord_repr kind t
  rows_procText := fun t => rowsOf_printed isWord_packed isWord_hexMark .plain t

/-- An IPv4 endpoint. -/
def endpoint (a b c d port : Nat) : Endpoint :=
  ⟨.v4 ⟨low8 a, low8 b, low8 c, low8 d⟩, low16 port⟩

/-- A destination that has not been used. -/
def idleDest (server : Endpoint) (weight : Nat) : Dest :=
  ⟨server, weight, ⟨0, 0, 0, 0, 0, 0, 0, 0, 0, 0, 0, 0⟩⟩

theorem oneDest_distinct : ([idleDest (endpoint 10 0 0 11 53) 1].map (·.server)).Nodup :=
  List.nodup_singleton _

/-- One service with an address and one for a firewall mark. -/
def markTable : Table where
  services := [
    ⟨.address .tcp (endpoint 10 0 0 53 53), [idleDest (endpoint 10 0 0 11 53) 1], oneDest_distinct⟩,
    ⟨.mark 1, [idleDest (endpoint 10 0 0 12 53) 1], by decide⟩]
  distinct := by decide

/-- The destination of the firewall mark is read as one of the service before it. -/
theorem mark_rows_misattributed : ¬ ∀ (p : Prints) (t : Table), ReadersAgree p t := by
  intro hagree
  have hrepeats := (merged_iff plainPrints markTable).mp (hagree plainPrints markTable).merged
  have hservice := hrepeats
    ⟨(.tcp, endpoint 10 0 0 53 53), [idleDest (endpoint 10 0 0 11 53) 1],
      [idleDest (endpoint 10 0 0 12 53) 1]⟩ List.mem_cons_self
  obtain ⟨d, hd, hserver, -⟩ := hservice _ List.mem_cons_self
  obtain rfl := List.mem_singleton.mp hd
  revert hserver
  decide

end AdguardAdmin.Ipvs
