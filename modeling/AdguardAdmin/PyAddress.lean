import AdguardAdmin.GoText
import AdguardAdmin.PyText
/-!
# Addresses of the control plane's standard library

Python's `ipaddress` as far as the validators use it.  Unlike the agent's parsers
it reads IPv6 zones (`fe80::1%eth0`), and it prints the zone again, so an address
the control plane has normalised can still be one the agent refuses.

The main result is `parseAddr_str`: the agent reads exactly the zoneless addresses
back from their printed form.
-/

namespace PyAddress

open IpLiterals GoText

/-- An address with its zone, which is empty when there is none. -/
inductive Address where
  | v4 (a : Ipv4)
  | v6 (a : Ipv6) (scope : List Char)
  deriving DecidableEq, Repr

def Address.ip : Address → Ip
  | .v4 a => .v4 a
  | .v6 a _ => .v6 a

def Address.scope : Address → List Char
  | .v4 _ => []
  | .v6 _ scope => scope

/-! ## Parsing -/

/-- Address and zone; a zone is neither empty nor contains another `%`. -/
def splitScopeId (cs : List Char) : Option (List Char × List Char) :=
  match cut? '%' cs with
  | none => some (cs, [])
  | some (addr, scope) => if scope = [] ∨ '%' ∈ scope then none else some (addr, scope)

/-- `ipaddress.ip_address` -/
def ipAddress (cs : List Char) : Option Address :=
  match parseIpv4 cs with
  | some a => some (.v4 a)
  | none =>
      if '/' ∈ cs then none
      else do
        let (addr, scope) ← splitScopeId cs
        return .v6 (← parseIpv6 addr) scope

/-- Address and mask; there is at most one slash. -/
def splitOptionalNetmask (cs : List Char) : Option (List Char × Option (List Char)) :=
  match cs.splitOn '/' with
  | [addr] => some (addr, none)
  | [addr, mask] => some (addr, some mask)
  | _ => none

/-- A prefix length in decimal; `int` refuses texts of more than 4300 digits. -/
def prefixFromPrefixString (width : Nat) (cs : List Char) : Option Nat := do
  let n ← if cs.length ≤ 4300 then decimal? cs else none
  if n ≤ width then some n else none

def Ipv4.toNat (a : Ipv4) : Nat :=
  ((a.a.val * 256 + a.b.val) * 256 + a.c.val) * 256 + a.d.val

/-- A netmask or a hostmask in dotted form. -/
def prefixFromIpString (cs : List Char) : Option Nat := do
  let mask := Ipv4.toNat (← parseIpv4 cs)
  ((List.range 33).find? fun n => mask = Nat.pow 2 32 - Nat.pow 2 (32 - n)).or
    ((List.range 33).find? fun n => mask = Nat.pow 2 (32 - n) - 1)

def prefixV4 : Option (List Char) → Option Nat
  | none => some 32
  | some mask => (prefixFromPrefixString 32 mask).or (prefixFromIpString mask)

def prefixV6 : Option (List Char) → Option Nat
  | none => some 128
  | some mask => prefixFromPrefixString 128 mask

def interfaceV4 (cs : List Char) : Option (Address × Nat) := do
  let (addr, mask) ← splitOptionalNetmask cs
  return (.v4 (← parseIpv4 addr), ← prefixV4 mask)

def interfaceV6 (cs : List Char) : Option (Address × Nat) := do
  let (addr, mask) ← splitOptionalNetmask cs
  let (plain, scope) ← splitScopeId addr
  return (.v6 (← parseIpv6 plain) scope, ← prefixV6 mask)

/-- `ipaddress.ip_interface` -/
def ipInterface (cs : List Char) : Option (Address × Nat) :=
  (interfaceV4 cs).or (interfaceV6 cs)

/-- The top `kept` bits of a number of `width` bits. -/
def keepBits (width kept n : Nat) : Nat := n / Nat.pow 2 (width - kept) * Nat.pow 2 (width - kept)

/-- The part of an octet or group at an index that a prefix covers. -/
def covered (width len i : Nat) : Nat := min width (len - width * i)

theorem mod_octet_lt (n : Nat) : n % 256 < 256 := Nat.mod_lt n (by decide)

theorem mod_hextet_lt (n : Nat) : n % 65536 < 65536 := Nat.mod_lt n (by decide)

/-- The low byte and the low group of a number. -/
def octetOfNat (n : Nat) : Fin 256 := ⟨n % 256, mod_octet_lt n⟩

def hextetOfNat (n : Nat) : Fin 65536 := ⟨n % 65536, mod_hextet_lt n⟩

def maskV4 (len : Nat) (a : Ipv4) : Ipv4 :=
  ⟨octetOfNat (keepBits 8 (covered 8 len 0) a.a.val),
    octetOfNat (keepBits 8 (covered 8 len 1) a.b.val),
    octetOfNat (keepBits 8 (covered 8 len 2) a.c.val),
    octetOfNat (keepBits 8 (covered 8 len 3) a.d.val)⟩

def maskV6 (len : Nat) (a : Ipv6) : Ipv6 :=
  ⟨a.groups.mapIdx fun i g => hextetOfNat (keepBits 16 (covered 16 len i) g.val), by
    rw [List.length_mapIdx, a.length_eq]⟩

/-- The network address of an interface.  Clearing host bits loses the zone. -/
def networkAddress (len : Nat) : Address → Address
  | .v4 a => .v4 (maskV4 len a)
  | .v6 a scope => if maskV6 len a = a then .v6 a scope else .v6 (maskV6 len a) []

/-- `ipaddress.ip_network` with `strict=False` -/
def ipNetwork (cs : List Char) : Option (Address × Nat) :=
  (ipInterface cs).map fun p => (networkAddress p.2 p.1, p.2)

/-! ## Printing -/

/-- The canonical form; the last groups of an IPv4-mapped address are dotted. -/
def formatV6 (a : Ipv6) : List Char :=
  if isMapped a then "::ffff:".toList ++ (embedded a).format else a.format

/-- `str` of an address. -/
def Address.str : Address → List Char
  | .v4 a => a.format
  | .v6 a [] => formatV6 a
  | .v6 a scope => formatV6 a ++ '%' :: scope

/-- `str` of an interface or a network. -/
def strPrefix (p : Address × Nat) : List Char := p.1.str ++ '/' :: Nat.toDigits 10 p.2

/-! ## What the agent reads back -/

theorem not_isLiteralChar_percent : isLiteralChar '%' = false := by decide

theorem not_isLiteralChar_slash : isLiteralChar '/' = false := by decide

/-- A group is its two bytes. -/
private theorem rebuilt_group (g : Fin 65536) :
    Fin.ofNat 65536 ((highByte g).val * 256 + (lowByte g).val) = g := by
  apply Fin.ext
  simp only [highByte, lowByte, Fin.ofNat]
  omega

/-- A mapped address is five zero groups, `ffff` and the groups of an IPv4 address. -/
theorem groups_of_isMapped {a : Ipv6} (h : isMapped a = true) :
    a.groups = [] ++ List.replicate 5 0 ++ (Fin.ofNat 65536 0xffff :: (embedded a).groups) := by
  obtain ⟨groups, hlen⟩ := a
  match groups, hlen with
  | [g0, g1, g2, g3, g4, g5, g6, g7], _ =>
      have hvals : g0.val = 0 ∧ g1.val = 0 ∧ g2.val = 0 ∧ g3.val = 0 ∧ g4.val = 0 ∧
          g5.val = 0xffff := by
        simpa [isMapped] using h
      obtain ⟨h0, h1, h2, h3, h4, h5⟩ := hvals
      have hembedded : Ipv4.groups (embedded ⟨[g0, g1, g2, g3, g4, g5, g6, g7], rfl⟩) =
          [g6, g7] := by
        simp only [embedded, List.drop_succ_cons, List.drop_zero, Ipv4.groups, rebuilt_group]
      rw [hembedded]
      simp only [List.nil_append, List.replicate, List.cons_append, List.cons.injEq, and_true]
      exact ⟨Fin.ext h0, Fin.ext h1, Fin.ext h2, Fin.ext h3, Fin.ext h4, Fin.ext h5⟩

/-- An IPv4 literal has no colon. -/
theorem colon_not_mem_of_parseIpv4 {cs : List Char} {a : Ipv4} (h : parseIpv4 cs = some a) :
    ':' ∉ cs := by
  intro hmem
  obtain ⟨field, hfield, hcolon⟩ := mem_splitOn_iff.mpr ⟨hmem, (by decide : ':' ≠ '.')⟩
  have hdigit := (parseIpv4_fields h field hfield).2.2 ':' hcolon
  exact absurd hdigit (by decide)

/-- The dotted form of a mapped address is read back. -/
theorem parseAddr_mapped {a : Ipv6} (h : isMapped a = true) :
    parseAddr ("::ffff:".toList ++ (embedded a).format) = some (.v6 a) := by
  have hcolon : ':' ∉ (embedded a).format :=
    colon_not_mem_of_parseIpv4 (parseIpv4_format (embedded a))
  have hdot : '.' ∈ (embedded a).format := by
    simp [Ipv4.format]
  have hfields : sideFields ("ffff".toList ++ ':' :: (embedded a).format) =
      ["ffff".toList, (embedded a).format] := by
    unfold sideFields
    rw [if_neg (by simp), List.splitOn_append_cons_self_of_not_mem (by decide),
      List.splitOn_eq_singleton hcolon]
  have hgroups : fieldGroups? ["ffff".toList, (embedded a).format] =
      some (Fin.ofNat 65536 0xffff :: (embedded a).groups) := by
    have hhead : hextet? "ffff".toList = some (Fin.ofNat 65536 0xffff) := by decide
    rw [fieldGroups?, hhead]
    · simp [fieldGroups?, hdot, parseIpv4_format]
    · simp
  have hv6 : parseIpv6 ("::ffff:".toList ++ (embedded a).format) = some a := by
    have hcut : cutDoubleColon? ("::ffff:".toList ++ (embedded a).format) =
        some ([], "ffff".toList ++ ':' :: (embedded a).format) := by rfl
    have hleft : (sideFields []).mapM hextet? = some [] := by rfl
    unfold parseIpv6
    simp only [hcut, hfields, hgroups, hleft]
    exact fillZeros?_around (by decide) (groups_of_isMapped h)
  unfold parseAddr
  cases hv4 : parseIpv4 ("::ffff:".toList ++ (embedded a).format) with
  | none => rw [hv6]; rfl
  | some b => exact absurd (List.mem_append_left _ (by decide)) (colon_not_mem_of_parseIpv4 hv4)

/-- The canonical form is read back, dotted or not. -/
theorem parseAddr_formatV6 (a : Ipv6) : parseAddr (formatV6 a) = some (.v6 a) := by
  unfold formatV6
  split
  · next h => exact parseAddr_mapped h
  · simp [parseAddr, parseIpv4_formatIpv6, parseIpv6_format]

/-- **Reading back.**  The agent reads exactly the zoneless addresses. -/
theorem parseAddr_str (a : Address) :
    parseAddr a.str = if a.scope = [] then some a.ip else none := by
  cases a with
  | v4 a => simp [Address.str, Address.scope, Address.ip, parseAddr, parseIpv4_format]
  | v6 a scope =>
      cases scope with
      | nil => simp [Address.str, Address.scope, Address.ip, parseAddr_formatV6]
      | cons c scope =>
          simp only [Address.scope, reduceCtorEq, if_false]
          cases hread : parseAddr (Address.v6 a (c :: scope)).str with
          | none => rfl
          | some ip =>
              have hliteral := parseAddr_chars hread '%' (by simp [Address.str])
              rw [not_isLiteralChar_percent] at hliteral
              cases hliteral

/-- A printed address has a percent sign exactly when it has a zone. -/
theorem percent_mem_str_iff (a : Address) : '%' ∈ a.str ↔ a.scope ≠ [] := by
  constructor
  · intro hmem hscope
    have hread := parseAddr_str a
    rw [if_pos hscope] at hread
    have hliteral := parseAddr_chars hread '%' hmem
    rw [not_isLiteralChar_percent] at hliteral
    cases hliteral
  · intro hscope
    cases a with
    | v4 a => exact absurd rfl hscope
    | v6 a scope =>
        cases scope with
        | nil => exact absurd rfl hscope
        | cons c scope => simp [Address.str]

/-! ## Prefixes -/

/-- A prefix is no longer than the address. -/
theorem prefixFromPrefixString_le {width n : Nat} {cs : List Char}
    (h : prefixFromPrefixString width cs = some n) : n ≤ width := by
  unfold prefixFromPrefixString at h
  by_cases hlen : cs.length ≤ 4300
  · rw [if_pos hlen] at h
    obtain ⟨m, -, hm⟩ := Option.bind_eq_some_iff.mp h
    dsimp only at hm
    by_cases hle : m ≤ width
    · rw [if_pos hle] at hm
      obtain rfl := Option.some.inj hm
      exact hle
    · rw [if_neg hle] at hm
      cases hm
  · rw [if_neg hlen] at h
    cases h

/-- A netmask is one of IPv4. -/
theorem prefixFromIpString_le {n : Nat} {cs : List Char} (h : prefixFromIpString cs = some n) :
    n ≤ 32 := by
  obtain ⟨a, -, h⟩ := Option.bind_eq_some_iff.mp h
  have hmem : n ∈ List.range 33 := by
    rcases Option.or_eq_some_iff.mp h with hmask | ⟨-, hmask⟩
    · exact List.mem_of_find?_eq_some hmask
    · exact List.mem_of_find?_eq_some hmask
  have := List.mem_range.mp hmem
  omega

/-- A prefix is no longer than the address. -/
theorem ipInterface_le {cs : List Char} {p : Address × Nat} (h : ipInterface cs = some p) :
    p.2 ≤ bitLen p.1.ip := by
  rcases Option.or_eq_some_iff.mp h with h4 | ⟨-, h6⟩
  · obtain ⟨⟨addr, mask⟩, -, h4⟩ := Option.bind_eq_some_iff.mp h4
    obtain ⟨a, -, h4⟩ := Option.bind_eq_some_iff.mp h4
    obtain ⟨n, hn, h4⟩ := Option.bind_eq_some_iff.mp h4
    obtain rfl := Option.some.inj h4
    show n ≤ 32
    cases mask with
    | none => exact le_of_eq (Option.some.inj hn).symm
    | some text =>
        rcases Option.or_eq_some_iff.mp hn with hlen | ⟨-, hmask⟩
        · exact prefixFromPrefixString_le hlen
        · exact prefixFromIpString_le hmask
  · obtain ⟨⟨addr, mask⟩, -, h6⟩ := Option.bind_eq_some_iff.mp h6
    obtain ⟨⟨plain, scope⟩, -, h6⟩ := Option.bind_eq_some_iff.mp h6
    obtain ⟨a, -, h6⟩ := Option.bind_eq_some_iff.mp h6
    obtain ⟨n, hn, h6⟩ := Option.bind_eq_some_iff.mp h6
    obtain rfl := Option.some.inj h6
    show n ≤ 128
    cases mask with
    | none => exact le_of_eq (Option.some.inj hn).symm
    | some text => exact prefixFromPrefixString_le hn

/-- The prefix of a network is no longer than its address. -/
theorem ipNetwork_le {cs : List Char} {p : Address × Nat} (h : ipNetwork cs = some p) :
    p.2 ≤ bitLen p.1.ip := by
  obtain ⟨q, hq, rfl⟩ := Option.map_eq_some_iff.mp h
  have hle := ipInterface_le hq
  have hsame : bitLen (networkAddress q.2 q.1).ip = bitLen q.1.ip := by
    cases q.1 with
    | v4 a => rfl
    | v6 a scope =>
        simp only [networkAddress]
        split <;> rfl
  simpa [hsame] using hle

/-- A prefix has a percent sign exactly when its address has a scope id. -/
theorem percent_mem_strPrefix_iff (p : Address × Nat) : '%' ∈ strPrefix p ↔ p.1.scope ≠ [] := by
  have hdigits : '%' ∉ Nat.toDigits 10 p.2 := not_mem_toDigits (by decide) p.2
  simp [strPrefix, percent_mem_str_iff, hdigits]

/-- Characters of an address or a prefix length. -/
theorem percent_not_mem_of_parseCIDR {s : String} {r : Ip × Nat} (h : parseCIDR s = some r) :
    '%' ∉ s.toList := by
  obtain ⟨⟨addr, mask⟩, hcut, h⟩ := Option.bind_eq_some_iff.mp h
  obtain ⟨ip, hip, h⟩ := Option.bind_eq_some_iff.mp h
  obtain ⟨n, hn, -⟩ := Option.bind_eq_some_iff.mp h
  rw [(cut?_eq_some.mp hcut).1]
  intro hmem
  simp only [List.mem_append, List.mem_cons] at hmem
  rcases hmem with hmem | hslash | hmem
  · have hliteral := parseAddr_chars hip '%' hmem
    rw [not_isLiteralChar_percent] at hliteral
    cases hliteral
  · cases hslash
  · unfold decimal? at hn
    split at hn
    · cases hn
    · exact absurd (number?_isSome hn '%' hmem) (by decide)

/-- An address without a scope has no slash. -/
theorem slash_not_mem_str {a : Address} (hscope : a.scope = []) : '/' ∉ a.str := by
  have hread := parseAddr_str a
  rw [if_pos hscope] at hread
  intro hmem
  have hliteral := parseAddr_chars hread '/' hmem
  rw [not_isLiteralChar_slash] at hliteral
  cases hliteral

/-- **Prefixes are read back** unless there is a zone. -/
theorem parseCIDR_strPrefix {p : Address × Nat} (hscope : p.1.scope = [])
    (hlen : p.2 ≤ bitLen p.1.ip) :
    parseCIDR (String.ofList (strPrefix p)) = some (unmap p.1.ip, p.2) := by
  have haddr : parseAddr p.1.str = some p.1.ip := by rw [parseAddr_str, if_pos hscope]
  have hcut : cut? '/' (strPrefix p) = some (p.1.str, Nat.toDigits 10 p.2) :=
    cut?_eq_some.mpr ⟨rfl, slash_not_mem_str hscope⟩
  unfold parseCIDR
  rw [String.toList_ofList, hcut]
  simp [haddr, decimal?_toDigits, hlen]

/-- The control plane reads what the agent reads. -/
theorem ipAddress_of_parseAddr {cs : List Char} {ip : Ip} (h : parseAddr cs = some ip) :
    ∃ a, ipAddress cs = some a ∧ a.ip = ip ∧ a.scope = [] := by
  have hslash : '/' ∉ cs := by
    intro hmem
    have hliteral := parseAddr_chars h '/' hmem
    rw [not_isLiteralChar_slash] at hliteral
    cases hliteral
  have hpercent : cut? '%' cs = none := by
    cases hcut : cut? '%' cs with
    | none => rfl
    | some p =>
        have hmem : '%' ∈ cs := by
          rw [(cut?_eq_some.mp (show cut? '%' cs = some (p.1, p.2) from hcut)).1]
          simp
        have hliteral := parseAddr_chars h '%' hmem
        rw [not_isLiteralChar_percent] at hliteral
        cases hliteral
  unfold parseAddr at h
  unfold ipAddress
  cases hv4 : parseIpv4 cs with
  | some a =>
      rw [hv4] at h
      exact ⟨.v4 a, rfl, Option.some.inj h, rfl⟩
  | none =>
      rw [hv4] at h
      obtain ⟨a, ha, rfl⟩ := Option.map_eq_some_iff.mp h
      refine ⟨.v6 a [], ?_, rfl, rfl⟩
      simp [hslash, splitScopeId, hpercent, ha]

end PyAddress
