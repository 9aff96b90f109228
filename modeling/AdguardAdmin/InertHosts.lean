import Mathlib
import AdguardAdmin.UrlText
import AdguardAdmin.ValidatedFields
/-!
# Hosts that carry nothing else

What passes `validate_host`, `validate_vip`, `validate_listen_address` or, as the host of a URL,
`validate_server_url` is written into scripts and configuration files.  It should be made of the
characters of names and address literals, and pass the same check unchanged.

The address parsers read an IPv6 zone (`fe80::1%eth0`), in which nearly any text can stand; and
a host in a URL is checked in lower case but kept as it is written.  `inert_iff` says that these,
and a URL that ends in a blank once its slashes are gone, are the only exceptions.
-/

namespace AdguardAdmin.Validators

open GoText PyText PyAddress IpLiterals UrlText

/-! ## Server URLs -/

/-- `_check_bracketed_host`; the future form `v1.…` is let through. -/
def checkBracketedHost (host : List Char) : Bool :=
  match host with
  | 'v' :: rest =>
      match cut? '.' rest with
      | some (version, address) =>
          version ≠ [] && version.all (fun c => (hexDigit? c).isSome) && address ≠ []
      | none => false
  | _ =>
      match ipAddress host with
      | some (.v6 _ _) => true
      | _ => false

/-- `_check_bracketed_netloc`, of a network location with brackets. -/
def checkBracketedNetloc (netloc : List Char) : Bool :=
  let info := afterLast '@' netloc
  match cut? '[' info with
  | some (before, bracketed) =>
      let (host, port) := partition ']' bracketed
      before = [] && (port = [] || port.head? = some ':') && checkBracketedHost host
  | none => checkBracketedHost (partition ':' info).1

structure SplitResult where
  scheme : List Char
  netloc : List Char
  deriving DecidableEq, Repr

-- `urllib.parse._checknetloc`: what a network location is under NFKC normalisation.
variable (checkNetloc : List Char → Bool)

/-- `urllib.parse.urlsplit`, as far as scheme and network location. -/
def urlsplit (value : List Char) : Option SplitResult :=
  let url := (value.dropWhile fun c => c.toNat ≤ 0x20).filter
    fun c => c ≠ '\t' && c ≠ '\r' && c ≠ '\n'
  let (scheme, rest) :=
    match cut? ':' url with
    | some (front, rest) => if isScheme front then (lower front, rest) else ([], url)
    | none => ([], url)
  match rest with
  | '/' :: '/' :: tail =>
      let netloc := tail.takeWhile notDelimiter
      if decide ('[' ∈ netloc) = decide (']' ∈ netloc) ∧
          ('[' ∈ netloc → checkBracketedNetloc netloc = true) ∧ checkNetloc netloc = true then
        some ⟨scheme, netloc⟩
      else none
  | _ => some ⟨scheme, []⟩

/-- `str.lower` of a character of a host.  Of the characters outside of ASCII only the Kelvin
sign has an ASCII lower case; what the others become makes no difference to the checks. -/
def lowerChar (c : Char) : Char := if c = '\u212a' then 'k' else c.toLower

/-- `hostname` of a split URL: lower case up to a zone. -/
def hostname (netloc : List Char) : List Char :=
  let host := (hostPort netloc).1
  match cut? '%' host with
  | some (front, zone) => front.map lowerChar ++ '%' :: zone
  | none => host.map lowerChar

/-- `port` of a split URL. -/
def splitPort (field : String) (netloc : List Char) : Except Error (Option Int) :=
  match (hostPort netloc).2 with
  | [] => .ok none
  | text =>
      match decimal? text with
      | some port =>
          if port ≤ 65535 then .ok (some port)
          else errorf (field ++ " has an invalid port: Port out of range 0-65535") []
      | none =>
          errorf (field ++ " has an invalid port: Port could not be cast to integer value as %r")
            [String.ofList text]

/-- An http(s) URL for an AdGuard instance. -/
def validateServerUrl (field value : String) : Except Error String := do
  let value := String.ofList (rstripBy (· = '/') (strip value).toList)
  failIf (hasControlChar value = true) (field ++ " must not contain control characters") []
  let parsed ← orFail (urlsplit checkNetloc value.toList) "Invalid URL" []
  failIf (parsed.scheme ≠ "http".toList ∧ parsed.scheme ≠ "https".toList)
    (field ++ " must start with http:// or https://") []
  failIf (hostname parsed.netloc = []) (field ++ " must include a host") []
  failIf (isValidHost (String.ofList (hostname parsed.netloc)) = false)
    (field ++ " has an invalid host (%r)") [String.ofList (hostname parsed.netloc)]
  match ← splitPort field parsed.netloc with
  | some port => do
      let _ ← validatePort (field ++ " port") port
      return value
  | none => return value

/-- The host of a URL as it is written. -/
def writtenHost (url : String) : List Char :=
  match urlsplit checkNetloc url.toList with
  | some parsed => (hostPort parsed.netloc).1
  | none => []

/-! ## The checks -/

inductive HostCheck where
  | host
  | vip
  | listenAddress
  | serverUrl
  deriving DecidableEq, Repr

/-- What a check stores of a value; a blank VIP is cleared. -/
def HostCheck.run : HostCheck → String → Except Error (Option String)
  | .host, value => (validateHost "connect_address" value).map some
  | .vip, value => validateVip value
  | .listenAddress, value => (validateListenAddress value).map some
  | .serverUrl, value => (validateServerUrl checkNetloc "url" value).map some

/-- The host text in what a check stores. -/
def HostCheck.hostText (check : HostCheck) (stored : String) : List Char :=
  match check with
  | .serverUrl => writtenHost checkNetloc stored
  | _ => stored.toList

/-- A letter or digit of ASCII, or a character of address literals, prefixes and ports. -/
def isInertChar (c : Char) : Bool :=
  c.isAlphanum || c = '.' || c = ':' || c = '-' || c = '[' || c = ']' || c = '/'

/-- The host is inert, and the check leaves what it has stored alone. -/
structure Inert (check : HostCheck) (stored : String) : Prop where
  chars : ∀ c ∈ check.hostText checkNetloc stored, isInertChar c = true
  again : check.run checkNetloc stored = .ok (some stored)

/-- No zone; in a URL, also no Kelvin sign in the host, and no blank at the end once the slashes
there are gone. -/
def HostCheck.Plain (check : HostCheck) (value : String) : Prop :=
  match check with
  | .serverUrl =>
      let url := String.ofList (rstripBy (· = '/') (strip value).toList)
      ('%' ∉ writtenHost checkNetloc url ∧ '\u212a' ∉ writtenHost checkNetloc url) ∧
        ∀ c ∈ url.toList.getLast?, isSpace c = false
  | _ => '%' ∉ value.toList

/-! ## Characters -/

section Characters

variable {c : Char} {cs : List Char}

/-- Inert characters lie between the hyphen and the `z`. -/
theorem isInertChar_range (h : isInertChar c = true) : 45 ≤ c.toNat ∧ c.toNat ≤ 122 := by
  by_cases halpha : c.isAlphanum = true
  · simp only [Char.isAlphanum, Char.isAlpha, Char.isUpper, Char.isLower, Char.isDigit,
      Bool.or_eq_true, Bool.and_eq_true, decide_eq_true_eq, ge_iff_le,
      UInt32.le_iff_toNat_le] at halpha
    have hbounds : 'A'.val.toNat = 65 ∧ 'Z'.val.toNat = 90 ∧ 'a'.val.toNat = 97 ∧
        'z'.val.toNat = 122 ∧ '0'.val.toNat = 48 ∧ '9'.val.toNat = 57 := by decide
    unfold Char.toNat
    omega
  · simp only [isInertChar, halpha, Bool.false_or, Bool.or_eq_true, decide_eq_true_eq] at h
    rcases h with ((((rfl | rfl) | rfl) | rfl) | rfl) | rfl <;> decide

/-- No inert character is a space. -/
theorem isSpace_of_inert (h : isInertChar c = true) : isSpace c = false := by
  have hrange := isInertChar_range h
  simp only [isSpace, decide_eq_false_iff_not]
  omega

/-- Hexadecimal digits are letters and digits. -/
theorem isAlphanum_of_hexDigit (h : (hexDigit? c).isSome = true) : c.isAlphanum = true := by
  have hbounds : 'A'.val.toNat = 65 ∧ 'F'.val.toNat = 70 ∧ 'Z'.val.toNat = 90 ∧
      'a'.val.toNat = 97 ∧ 'f'.val.toNat = 102 ∧ 'z'.val.toNat = 122 := by decide
  simp only [Char.isAlphanum, Char.isAlpha, Char.isUpper, Char.isLower, Char.isDigit,
    Bool.or_eq_true, Bool.and_eq_true, decide_eq_true_eq, ge_iff_le, UInt32.le_iff_toNat_le]
  unfold hexDigit? at h
  simp only [Char.le_def, UInt32.le_iff_toNat_le] at h
  split at h
  · omega
  split at h
  · omega
  split at h
  · omega
  · cases h

/-- The characters of address literals are inert. -/
theorem inert_of_literal (h : isLiteralChar c = true) : isInertChar c = true := by
  simp only [isLiteralChar, Bool.or_eq_true, decide_eq_true_eq] at h
  rcases h with (hdigit | rfl) | rfl
  · simp [isInertChar, isAlphanum_of_hexDigit hdigit]
  · decide
  · decide

theorem inert_ne_percent (h : isInertChar c = true) : c ≠ '%' := by
  rintro rfl
  cases h

/-- A text of inert characters has no blanks around it. -/
theorem strip_of_inert {s : String} (h : ∀ c ∈ s.toList, isInertChar c = true) : strip s = s := by
  rw [strip, stripBy_eq_self fun c hc => isSpace_of_inert (h c hc), String.ofList_toList]

/-- An inert text has no control characters. -/
theorem hasControlChar_of_inert {s : String} (h : ∀ c ∈ s.toList, isInertChar c = true) :
    hasControlChar s = false := by
  rw [hasControlChar, List.any_eq_false]
  intro c hc
  have hrange := isInertChar_range (h c hc)
  simp only [Bool.or_eq_true, decide_eq_true_eq]
  omega

/-- The labels of hostnames are inert. -/
theorem inert_of_isHostLabel (h : isHostLabel cs = true) : ∀ c ∈ cs, isInertChar c = true := by
  intro c hc
  simp only [isHostLabel, Bool.and_eq_true, List.all_eq_true, Bool.or_eq_true,
    decide_eq_true_eq] at h
  rcases h.1.1.2 c hc with halnum | rfl
  · simp [isInertChar, halnum]
  · decide

/-- A hostname is made of labels and dots. -/
theorem inert_of_isHostname (h : isHostname cs = true) (hlast : cs.getLast? ≠ some '\n') :
    ∀ c ∈ cs, isInertChar c = true := by
  intro c hc
  simp only [isHostname, beforeEnd, hlast, if_false, Bool.and_eq_true, List.all_eq_true] at h
  by_cases hdot : c = '.'
  · rw [hdot]
    decide
  · obtain ⟨label, hlabel, hmem⟩ := mem_splitOn_iff.mpr ⟨hc, hdot⟩
    refine inert_of_isHostLabel (h.2 label ?_) c hmem
    -- the label that is dropped is empty
    unfold dropFinalDot
    split
    · next hempty =>
        have hsplit := List.dropLast_append_getLast? [] hempty
        rw [← hsplit, List.mem_append, List.mem_singleton] at hlabel
        refine hlabel.resolve_right ?_
        rintro rfl
        cases hmem
    · exact hlabel

end Characters

/-! ## Addresses -/

section Addresses

variable {cs : List Char}

/-- An address literal has a percent sign exactly when it has a scope id. -/
theorem percent_mem_splitScopeId {addr scope : List Char}
    (h : splitScopeId cs = some (addr, scope)) {a : Ipv6} (ha : parseIpv6 addr = some a) :
    '%' ∈ cs ↔ scope ≠ [] := by
  have haddr : '%' ∉ addr := fun hmem => inert_ne_percent
    (inert_of_literal (parseIpv6_chars ha '%' hmem)) rfl
  unfold splitScopeId at h
  split at h
  · obtain ⟨rfl, rfl⟩ : cs = addr ∧ [] = scope := by simpa using h
    simp [haddr]
  · next front zone hcut =>
      split at h
      · cases h
      · next hzone =>
          obtain ⟨rfl, rfl⟩ : front = addr ∧ zone = scope := by simpa using h
          rw [(cut?_eq_some.mp hcut).1]
          simp_all

/-- A percent sign starts a zone. -/
theorem percent_mem_ipAddress {a : Address} (h : ipAddress cs = some a) :
    '%' ∈ cs ↔ a.scope ≠ [] := by
  unfold ipAddress at h
  split at h
  · next x hx =>
      obtain rfl := Option.some.inj h
      have hnot : '%' ∉ cs := fun hmem => inert_ne_percent
        (inert_of_literal (parseIpv4_chars hx '%' hmem)) rfl
      simp [hnot, Address.scope]
  · split at h
    · cases h
    · obtain ⟨⟨addr, scope⟩, hsplit, h⟩ := Option.bind_eq_some_iff.mp h
      obtain ⟨x, hx, h⟩ := Option.bind_eq_some_iff.mp h
      obtain rfl := Option.some.inj h
      exact percent_mem_splitScopeId hsplit hx

/-- A text without a percent sign has no scope id. -/
theorem splitScopeId_of_plain (h : '%' ∉ cs) : splitScopeId cs = some (cs, []) := by
  unfold splitScopeId
  split
  · rfl
  · next addr zone hcut =>
      have hmem : '%' ∈ cs := by
        rw [(cut?_eq_some.mp hcut).1]
        simp
      exact (h hmem).elim

/-- A zoneless address is inert. -/
theorem inert_of_ipAddress {a : Address} (h : ipAddress cs = some a) (hpercent : '%' ∉ cs) :
    ∀ c ∈ cs, isInertChar c = true := by
  unfold ipAddress at h
  split at h
  · next x hx => exact fun c hc => inert_of_literal (parseIpv4_chars hx c hc)
  · split at h
    · cases h
    · rw [splitScopeId_of_plain hpercent] at h
      obtain ⟨_, hplain, h⟩ := Option.bind_eq_some_iff.mp h
      obtain rfl := Option.some.inj hplain
      obtain ⟨x, hx, -⟩ := Option.bind_eq_some_iff.mp h
      exact fun c hc => inert_of_literal (parseIpv6_chars hx c hc)

/-- An address without scope id is written with inert characters. -/
theorem inert_str {a : Address} (hscope : a.scope = []) : ∀ c ∈ a.str, isInertChar c = true := by
  intro c hc
  have hread := parseAddr_str a
  rw [if_pos hscope] at hread
  exact inert_of_literal (parseAddr_chars hread c hc)

theorem inert_toDigits (n : Nat) : ∀ c ∈ Nat.toDigits 10 n, isInertChar c = true := by
  intro c hc
  have hdigit := hexDigit?_of_decDigit? (decDigit?_of_mem_toDigits hc)
  simp [isInertChar, isAlphanum_of_hexDigit hdigit]

/-- The control plane reads a zoneless address back. -/
theorem ipAddress_str {a : Address} (hscope : a.scope = []) : ipAddress a.str = some a := by
  have hread := parseAddr_str a
  rw [if_pos hscope] at hread
  obtain ⟨b, hb, hip, hzone⟩ := ipAddress_of_parseAddr hread
  rw [hb]
  cases a <;> cases b <;> simp_all [Address.ip, Address.scope]

/-- The length of a prefix has no percent sign. -/
theorem percent_not_mem_prefixFromPrefixString {width n : Nat}
    (h : prefixFromPrefixString width cs = some n) : '%' ∉ cs := by
  unfold prefixFromPrefixString at h
  by_cases hlen : cs.length ≤ 4300
  · rw [if_pos hlen] at h
    obtain ⟨m, hm, -⟩ := Option.bind_eq_some_iff.mp h
    unfold decimal? at hm
    split at hm
    · cases hm
    · intro hmem
      exact absurd (number?_isSome hm '%' hmem) (by decide)
  · rw [if_neg hlen] at h
    cases h

theorem percent_not_mem_prefixFromIpString {n : Nat} (h : prefixFromIpString cs = some n) :
    '%' ∉ cs := by
  obtain ⟨a, ha, -⟩ := Option.bind_eq_some_iff.mp h
  exact fun hmem => inert_ne_percent (inert_of_literal (parseIpv4_chars ha '%' hmem)) rfl

/-- The address and the mask hold all characters but the slash. -/
theorem percent_mem_splitOptionalNetmask {addr : List Char} {mask : Option (List Char)}
    (h : splitOptionalNetmask cs = some (addr, mask)) :
    '%' ∈ cs ↔ '%' ∈ addr ∨ ∃ text ∈ mask, '%' ∈ text := by
  have hfields : '%' ∈ cs ↔ ∃ field ∈ cs.splitOn '/', '%' ∈ field := by
    rw [mem_splitOn_iff]
    simp
  rw [hfields]
  unfold splitOptionalNetmask at h
  split at h
  · next only hsplit =>
      obtain ⟨rfl, rfl⟩ : only = addr ∧ none = mask := by simpa using h
      simp [hsplit]
  · next front text hsplit =>
      obtain ⟨rfl, rfl⟩ : front = addr ∧ some text = mask := by simpa using h
      simp [hsplit]
  · cases h

/-- An interface has a percent sign exactly when its address has a scope id. -/
theorem percent_mem_ipInterface {p : Address × Nat} (h : ipInterface cs = some p) :
    '%' ∈ cs ↔ p.1.scope ≠ [] := by
  rcases Option.or_eq_some_iff.mp h with h4 | ⟨-, h6⟩
  · obtain ⟨⟨addr, mask⟩, hsplit, h4⟩ := Option.bind_eq_some_iff.mp h4
    obtain ⟨a, ha, h4⟩ := Option.bind_eq_some_iff.mp h4
    obtain ⟨n, hn, h4⟩ := Option.bind_eq_some_iff.mp h4
    obtain rfl := Option.some.inj h4
    rw [percent_mem_splitOptionalNetmask hsplit]
    have haddr : '%' ∉ addr := fun hmem =>
      inert_ne_percent (inert_of_literal (parseIpv4_chars ha '%' hmem)) rfl
    have hmask : ¬ ∃ text ∈ mask, '%' ∈ text := by
      rintro ⟨text, rfl, hmem⟩
      rcases Option.or_eq_some_iff.mp hn with hlen | ⟨-, hdotted⟩
      · exact percent_not_mem_prefixFromPrefixString hlen hmem
      · exact percent_not_mem_prefixFromIpString hdotted hmem
    rw [or_iff_left hmask]
    exact iff_of_false haddr (not_not.mpr rfl)
  · obtain ⟨⟨addr, mask⟩, hsplit, h6⟩ := Option.bind_eq_some_iff.mp h6
    obtain ⟨⟨plain, scope⟩, hscope, h6⟩ := Option.bind_eq_some_iff.mp h6
    obtain ⟨a, ha, h6⟩ := Option.bind_eq_some_iff.mp h6
    obtain ⟨n, hn, h6⟩ := Option.bind_eq_some_iff.mp h6
    obtain rfl := Option.some.inj h6
    rw [percent_mem_splitOptionalNetmask hsplit]
    have hmask : ¬ ∃ text ∈ mask, '%' ∈ text := by
      rintro ⟨text, rfl, hmem⟩
      exact percent_not_mem_prefixFromPrefixString hn hmem
    rw [or_iff_left hmask]
    exact percent_mem_splitScopeId hscope ha

/-- An interface without scope id is written with inert characters, the slash among them. -/
theorem inert_strPrefix {p : Address × Nat} (hscope : p.1.scope = []) :
    ∀ c ∈ strPrefix p, isInertChar c = true := by
  intro c hc
  simp only [strPrefix, List.mem_append, List.mem_cons] at hc
  rcases hc with hc | rfl | hc
  · exact inert_str hscope c hc
  · decide
  · exact inert_toDigits p.2 c hc

/-- What is written of an interface is divided at its slash. -/
theorem splitOptionalNetmask_strPrefix {p : Address × Nat} (hscope : p.1.scope = []) :
    splitOptionalNetmask (strPrefix p) = some (p.1.str, some (Nat.toDigits 10 p.2)) := by
  have hstr : '/' ∉ p.1.str := slash_not_mem_str hscope
  have hdigits : '/' ∉ Nat.toDigits 10 p.2 := not_mem_toDigits (by decide) p.2
  have hsplit : (strPrefix p).splitOn '/' = [p.1.str, Nat.toDigits 10 p.2] := by
    rw [strPrefix, List.splitOn_append_cons_self_of_not_mem hstr,
      List.splitOn_eq_singleton hdigits]
  rw [splitOptionalNetmask, hsplit]

/-- The length of a prefix is read back. -/
theorem prefixFromPrefixString_toDigits {width n : Nat} (hwidth : width ≤ 128) (hn : n ≤ width) :
    prefixFromPrefixString width (Nat.toDigits 10 n) = some n := by
  have hshort : ∀ m < 129, (Nat.toDigits 10 m).length ≤ 4300 := by decide
  simp [prefixFromPrefixString, hshort n (by omega), decimal?_toDigits, hn]

/-- A zoneless interface is read back. -/
theorem ipInterface_strPrefix {p : Address × Nat} (hscope : p.1.scope = [])
    (hlen : p.2 ≤ bitLen p.1.ip) : ipInterface (strPrefix p) = some p := by
  have hsplit := splitOptionalNetmask_strPrefix hscope
  have hread := parseAddr_str p.1
  rw [if_pos hscope] at hread
  obtain ⟨a, n⟩ := p
  cases a with
  | v4 a =>
      have hmask : prefixV4 (some (Nat.toDigits 10 n)) = some n := by
        have hdecimal : prefixFromPrefixString 32 (Nat.toDigits 10 n) = some n :=
          prefixFromPrefixString_toDigits (by decide) hlen
        rw [prefixV4, hdecimal, Option.some_or]
      simp [ipInterface, interfaceV4, hsplit, Address.str, parseIpv4_format, hmask]
  | v6 a scope =>
      obtain rfl : scope = [] := hscope
      have hmask : prefixV6 (some (Nat.toDigits 10 n)) = some n :=
        prefixFromPrefixString_toDigits (by decide) hlen
      have hpercent : '%' ∉ (Address.v6 a []).str := fun hmem =>
        inert_ne_percent (inert_str rfl '%' hmem) rfl
      unfold parseAddr at hread
      split at hread
      · cases hread
      · next hv4 =>
          obtain ⟨b, hb, heq⟩ := Option.map_eq_some_iff.mp hread
          obtain rfl : b = a := by simpa [Address.ip] using heq
          simp [ipInterface, interfaceV4, interfaceV6, hsplit, hv4, hb, hmask,
            splitScopeId_of_plain hpercent]

end Addresses

/-! ## Blanks -/

/-- Stripping takes blanks only. -/
theorem mem_strip {s : String} {c : Char} (hc : isSpace c = false) :
    c ∈ (strip s).toList ↔ c ∈ s.toList := by
  have hfront := List.takeWhile_append_dropWhile (p := isSpace) (l := s.toList)
  obtain ⟨gap, hback, hgap⟩ := exists_gap_of_rstripBy isSpace (s.toList.dropWhile isSpace)
  rw [strip, String.toList_ofList, stripBy]
  constructor
  · exact fun hmem => (stripBy_sublist isSpace s.toList).subset hmem
  · intro hmem
    rw [← hfront, hback, List.mem_append, List.mem_append] at hmem
    rcases hmem with hmem | hmem | hmem
    · exact absurd (hc.symm.trans (List.mem_takeWhile_imp hmem)) Bool.false_ne_true
    · exact hmem
    · exact absurd (hc.symm.trans (hgap c hmem)) Bool.false_ne_true

theorem percent_mem_strip (s : String) : '%' ∈ (strip s).toList ↔ '%' ∈ s.toList :=
  mem_strip (by decide)

/-- A stripped text neither starts nor ends with a blank. -/
theorem strip_ends (s : String) :
    (∀ c ∈ (strip s).toList.head?, isSpace c = false) ∧
      ∀ c ∈ (strip s).toList.getLast?, isSpace c = false := by
  have hagain := stripBy_idem isSpace s.toList
  rw [strip, String.toList_ofList]
  -- a blank at an end would be taken off by stripping again
  constructor
  · intro c hc
    obtain ⟨rest, hrest⟩ := List.head?_eq_some_iff.mp hc
    by_contra hspace
    rw [Bool.not_eq_false] at hspace
    have hshorter := (stripBy_sublist isSpace rest).length_le
    rw [hrest] at hagain
    have hdrop : stripBy isSpace (c :: rest) = stripBy isSpace rest := by
      rw [stripBy, List.dropWhile_cons_of_pos hspace, stripBy]
    rw [hdrop] at hagain
    rw [hagain, List.length_cons] at hshorter
    omega
  · intro c hc
    have hne : stripBy isSpace s.toList ≠ [] := by
      intro hnil
      rw [hnil] at hc
      cases hc
    have hlast := List.rdropWhile_last_not isSpace (s.toList.dropWhile isSpace) hne
    rw [List.getLast?_eq_some_getLast hne] at hc
    obtain rfl := Option.some.inj hc
    rw [← Bool.not_eq_true]
    exact hlast

/-! ## One host -/

section Host

variable {value stored : String}

/-- A valid host is inert, but for a percent sign and a line break at its end. -/
theorem inert_of_isValidHost (h : isValidHost value = true)
    (hlast : value.toList.getLast? ≠ some '\n') (hpercent : '%' ∉ value.toList) :
    ∀ c ∈ value.toList, isInertChar c = true := by
  simp only [isValidHost, Bool.and_eq_true, Bool.or_eq_true] at h
  rcases h.2 with haddress | hname
  · obtain ⟨a, ha⟩ := Option.isSome_iff_exists.mp haddress
    exact inert_of_ipAddress ha hpercent
  · exact inert_of_isHostname hname hlast

theorem map_some_ok {x : Except Error String} :
    x.map some = .ok (some stored) ↔ x = .ok stored := by
  cases x <;> simp [Except.map]

/-- A host that passes is a valid one, and is stored without the blanks around it. -/
theorem validateHost_ok {field : String} : validateHost field value = .ok stored ↔
    isValidHost (strip value) = true ∧ strip value = stored := by
  simp only [validateHost, bind_ok, failIf_ok, pure_ok, exists_const, Bool.not_eq_false]

/-- The check of hosts stores what the validator returns. -/
theorem run_host_ok : HostCheck.host.run checkNetloc value = .ok (some stored) ↔
    isValidHost (strip value) = true ∧ strip value = stored := by
  rw [HostCheck.run, map_some_ok, validateHost_ok]

/-- A host that is stored is inert exactly when no percent sign was given. -/
theorem host_inert_iff (h : HostCheck.host.run checkNetloc value = .ok (some stored)) :
    Inert checkNetloc .host stored ↔ '%' ∉ value.toList := by
  obtain ⟨hvalid, rfl⟩ := (run_host_ok checkNetloc).mp h
  constructor
  · intro hinert hmem
    exact inert_ne_percent (hinert.chars '%' ((percent_mem_strip value).mpr hmem)) rfl
  · intro hpercent
    have hlast : (strip value).toList.getLast? ≠ some '\n' := fun hnewline =>
      absurd ((strip_ends value).2 '\n' hnewline) (by decide)
    refine ⟨inert_of_isValidHost hvalid hlast (mt (percent_mem_strip value).mp hpercent), ?_⟩
    rw [run_host_ok, strip_strip]
    exact ⟨hvalid, rfl⟩

/-- A VIP that passes is a unicast address with a prefix, and is stored as that is written. -/
theorem validateVip_ok : validateVip value = .ok (some stored) ↔
    strip value ≠ "" ∧ '/' ∈ (strip value).toList ∧ ∃ p, ipInterface (strip value).toList = some p ∧
      isUnicast (unmap p.1.ip) = true ∧ String.ofList (strPrefix p) = stored := by
  unfold validateVip
  by_cases hempty : strip value = ""
  · simp [hempty]
  · simp only [hempty, if_false, bind_ok, failIf_ok, orFail_ok, pure_ok, exists_const, not_not,
      Bool.not_eq_false, Option.some.injEq, ne_eq, not_false_eq_true, true_and]

/-- The check of VIPs stores what the validator returns. -/
theorem run_vip_ok : HostCheck.vip.run checkNetloc value = .ok (some stored) ↔
    strip value ≠ "" ∧ '/' ∈ (strip value).toList ∧ ∃ p, ipInterface (strip value).toList = some p ∧
      isUnicast (unmap p.1.ip) = true ∧ String.ofList (strPrefix p) = stored := by
  rw [HostCheck.run, validateVip_ok]

/-- A VIP that is stored is inert exactly when no percent sign was given. -/
theorem vip_inert_iff (h : HostCheck.vip.run checkNetloc value = .ok (some stored)) :
    Inert checkNetloc .vip stored ↔ '%' ∉ value.toList := by
  obtain ⟨-, -, p, hp, hunicast, rfl⟩ := (run_vip_ok checkNetloc).mp h
  have hscope : '%' ∉ value.toList ↔ p.1.scope = [] := by
    rw [← percent_mem_strip, percent_mem_ipInterface hp, not_not]
  rw [hscope]
  constructor
  · intro hinert
    by_contra hne
    have hmem : '%' ∈ (String.ofList (strPrefix p)).toList := by
      rw [String.toList_ofList]
      exact (percent_mem_strPrefix_iff p).mpr hne
    exact inert_ne_percent (hinert.chars '%' hmem) rfl
  · intro hzone
    have hchars : ∀ c ∈ (String.ofList (strPrefix p)).toList, isInertChar c = true := by
      rw [String.toList_ofList]
      exact inert_strPrefix hzone
    refine ⟨hchars, ?_⟩
    rw [run_vip_ok, strip_of_inert hchars, String.toList_ofList]
    refine ⟨?_, by simp [strPrefix], p, ipInterface_strPrefix hzone (ipInterface_le hp), hunicast,
      rfl⟩
    intro hempty
    have hnil := congrArg String.toList hempty
    simp [strPrefix] at hnil

end Host

/-! ## A listen address -/

section Listen

variable {value stored : String} {host : List Char} {port : Int}

/-- Numbers have no percent sign. -/
theorem percent_not_mem_of_unsigned? {cs : List Char} {n : Nat} (h : unsigned? cs = some n) :
    '%' ∉ cs := by
  intro hmem
  unfold unsigned? at h
  dsimp only at h
  split at h
  · obtain ⟨field, hfield, hpercent⟩ := mem_splitOn_iff.mpr
      ⟨hmem, (by decide : '%' ≠ '_')⟩
    have hdigit := number?_isSome h '%' (List.mem_flatten.mpr ⟨field, hfield, hpercent⟩)
    exact absurd hdigit (by decide)
  · cases h

/-- A number, with or without a sign, has no percent sign. -/
theorem percent_not_mem_of_int? {text : String} {n : Int} (h : int? text = some n) :
    '%' ∉ text.toList := by
  rw [← percent_mem_strip]
  unfold int? at h
  split at h
  · next ds hds =>
      obtain ⟨m, hm, -⟩ := Option.map_eq_some_iff.mp h
      rw [hds]
      simp [percent_not_mem_of_unsigned? hm]
  · next ds hds =>
      obtain ⟨m, hm, -⟩ := Option.map_eq_some_iff.mp h
      rw [hds]
      simp [percent_not_mem_of_unsigned? hm]
  · obtain ⟨m, hm, -⟩ := Option.map_eq_some_iff.mp h
    exact percent_not_mem_of_unsigned? hm

theorem percent_not_mem_of_intPort {field text : String} (h : intPort field text = .ok port) :
    '%' ∉ text.toList := by
  obtain ⟨n, hn, -⟩ := bind_ok.mp h
  exact percent_not_mem_of_int? (orFail_ok.mp hn)

/-- A percent sign of a listen address is one of its host. -/
theorem percent_mem_listenParts (h : listenParts value = .ok (host, port)) :
    '%' ∈ value.toList ↔ '%' ∈ host := by
  unfold listenParts at h
  split at h
  · next inner hinner =>
      obtain ⟨⟨front, rest⟩, hcut, h⟩ := bind_ok.mp h
      have hparts := (cut?_eq_some.mp (orFail_ok.mp hcut)).1
      rw [hinner, hparts]
      dsimp only at h
      split at h
      · obtain ⟨rfl, -⟩ := Prod.mk.inj (pure_ok.mp h)
        simp
      · next text =>
          obtain ⟨n, hn, h⟩ := bind_ok.mp h
          obtain ⟨rfl, -⟩ := Prod.mk.inj (pure_ok.mp h)
          have htext := percent_not_mem_of_intPort hn
          rw [String.toList_ofList] at htext
          simp [htext]
      · cases h
  · split at h
    · next front text hcut =>
        split at h
        · obtain ⟨rfl, -⟩ := Prod.mk.inj (Except.ok.inj h)
          rfl
        · obtain ⟨n, hn, h⟩ := bind_ok.mp h
          obtain ⟨rfl, -⟩ := Prod.mk.inj (pure_ok.mp h)
          have htext := percent_not_mem_of_intPort hn
          rw [String.toList_ofList] at htext
          rw [(cut?_eq_some.mp hcut).1]
          simp [htext]
    · obtain ⟨rfl, -⟩ := Prod.mk.inj (Except.ok.inj h)
      rfl

/-- A port is read back. -/
theorem int?_toDigits {n : Nat} (hn : n ≤ 65535) :
    int? (String.ofList (Nat.toDigits 10 n)) = some (Int.ofNat n) := by
  have hstrip : strip (String.ofList (Nat.toDigits 10 n)) = String.ofList (Nat.toDigits 10 n) :=
    strip_of_inert (by rw [String.toList_ofList]; exact inert_toDigits n)
  have hread : ReadsDigits decimalDigit? 10 := by
    unfold ReadsDigits
    decide
  have hlength : (Nat.toDigits 10 n).length ≤ 4300 := by
    have hfive : (Nat.toDigits 10 n).length ≤ 5 :=
      (Nat.length_toDigits_le_iff (by decide) (by decide)).mpr (by omega)
    omega
  have hunsigned : unsigned? (Nat.toDigits 10 n) = some n := by
    have hsplit : (Nat.toDigits 10 n).splitOn '_' = [Nat.toDigits 10 n] :=
      List.splitOn_eq_singleton (not_mem_toDigits (by decide) n)
    have hnumber := number?_toDigits (by decide : 1 < 10) hread n
    have hne : Nat.toDigits 10 n ≠ [] := Nat.toDigits_ne_nil
    simp [unsigned?, hsplit, hne.symm, hlength, hnumber]
  have hsign : ∀ {c : Char} {ds}, Nat.toDigits 10 n = c :: ds → (decDigit? c).isSome = true :=
    fun heq => decDigit?_of_mem_toDigits (heq ▸ List.mem_cons_self)
  unfold int?
  rw [hstrip, String.toList_ofList]
  split
  · next heq => cases hsign heq
  · next heq => cases hsign heq
  · rw [hunsigned]
    rfl

/-- An address and a port are taken apart again. -/
theorem listenParts_formatHostPort {ip : Address} (hscope : ip.scope = []) (hleast : 1 ≤ port)
    (hmost : port ≤ 65535) : listenParts (formatHostPort ip.str port) = .ok (ip.str, port) := by
  have hread : parseAddr ip.str = some ip.ip := by rw [parseAddr_str, if_pos hscope]
  have hbrackets := noBrackets_of_parseAddr hread
  have hport : intPort "listen address" (String.ofList (Nat.toDigits 10 port.toNat)) =
      .ok port := by
    have hint := int?_toDigits (n := port.toNat) (by omega)
    rw [show Int.ofNat port.toNat = port from Int.toNat_of_nonneg (by omega)] at hint
    have hbetween : validatePort "listen address port" port = .ok port := by
      rw [validatePort, validateBetween, bind_ok]
      exact ⟨(), failIf_ok.mpr (not_not.mpr ⟨hleast, hmost⟩), rfl⟩
    rw [intPort, bind_ok]
    exact ⟨port, orFail_ok.mpr hint, hbetween⟩
  unfold formatHostPort
  rw [ipAddress_str hscope]
  cases ip with
  | v6 x scope =>
      have hcut : cut? ']' ((Address.v6 x scope).str ++ ']' :: ':' :: Nat.toDigits 10 port.toNat) =
          some ((Address.v6 x scope).str, ':' :: Nat.toDigits 10 port.toNat) :=
        cut?_eq_some.mpr ⟨rfl, hbrackets.2⟩
      unfold listenParts
      simp only [String.toList_ofList, List.cons_append, hcut]
      rw [bind_ok]
      exact ⟨_, rfl, bind_ok.mpr ⟨port, hport, rfl⟩⟩
  | v4 x =>
      have hcolon : ':' ∉ (Address.v4 x).str :=
        colon_not_mem_of_parseIpv4 (IpLiterals.parseIpv4_format x)
      have hcut : cut? ':' ((Address.v4 x).str ++ ':' :: Nat.toDigits 10 port.toNat) =
          some ((Address.v4 x).str, Nat.toDigits 10 port.toNat) := cut?_eq_some.mpr ⟨rfl, hcolon⟩
      unfold listenParts
      simp only [String.toList_ofList]
      split
      · next rest heq =>
          have hmem : '[' ∈ (Address.v4 x).str ++ ':' :: Nat.toDigits 10 port.toNat := by
            simp [heq]
          have hdigits : '[' ∉ Nat.toDigits 10 port.toNat := not_mem_toDigits (by decide) _
          simp [hbrackets.1, hdigits] at hmem
      · have hdigits : ':' ∉ Nat.toDigits 10 port.toNat := not_mem_toDigits (by decide) _
        rw [hcut]
        simp only [hdigits, if_false]
        rw [bind_ok]
        exact ⟨port, hport, rfl⟩

/-- An address without scope id and a port are written with inert characters. -/
theorem inert_formatHostPort {ip : Address} (hscope : ip.scope = []) :
    ∀ c ∈ (formatHostPort ip.str port).toList, isInertChar c = true := by
  have hdigits := inert_toDigits port.toNat
  have hstr := inert_str hscope
  unfold formatHostPort
  dsimp only
  split <;> intro c hc
  · simp only [String.toList_ofList, List.cons_append, List.mem_cons, List.mem_append] at hc
    rcases hc with rfl | hc | rfl | rfl | hc
    · decide
    · exact hstr c hc
    · decide
    · decide
    · exact hdigits c hc
  · simp only [String.toList_ofList, List.mem_cons, List.mem_append] at hc
    rcases hc with hc | rfl | hc
    · exact hstr c hc
    · decide
    · exact hdigits c hc

/-- A listen address that passes is an address literal and a port, and is stored normalised. -/
theorem validateListenAddress_ok : validateListenAddress value = .ok stored ↔
    (hasControlChar (strip value) = false ∧ strip value ≠ "") ∧
      ∃ host port, listenParts (strip value) = .ok (host, port) ∧
        ∃ ip, ipAddress host = some ip ∧ formatHostPort ip.str port = stored := by
  unfold validateListenAddress
  simp only [bind_ok, failIf_ok, orFail_ok, pure_ok, exists_const, not_or, Bool.not_eq_true,
    Prod.exists]

/-- The check of listen addresses stores what the validator returns. -/
theorem run_listen_ok : HostCheck.listenAddress.run checkNetloc value = .ok (some stored) ↔
    (hasControlChar (strip value) = false ∧ strip value ≠ "") ∧
      ∃ host port, listenParts (strip value) = .ok (host, port) ∧
        ∃ ip, ipAddress host = some ip ∧ formatHostPort ip.str port = stored := by
  rw [HostCheck.run, map_some_ok, validateListenAddress_ok]

/-- A listen address that is stored is inert exactly when no percent sign was given. -/
theorem listen_inert_iff
    (h : HostCheck.listenAddress.run checkNetloc value = .ok (some stored)) :
    Inert checkNetloc .listenAddress stored ↔ '%' ∉ value.toList := by
  obtain ⟨-, host, port, hparts, ip, hip, rfl⟩ := (run_listen_ok checkNetloc).mp h
  obtain ⟨hleast, hmost⟩ := listenParts_range hparts
  have hscope : '%' ∉ value.toList ↔ ip.scope = [] := by
    rw [← percent_mem_strip, percent_mem_listenParts hparts, percent_mem_ipAddress hip, not_not]
  rw [hscope]
  constructor
  · intro hinert
    by_contra hne
    have hmem : '%' ∈ (formatHostPort ip.str port).toList :=
      mem_formatHostPort ((percent_mem_str_iff ip).mpr hne)
    exact inert_ne_percent (hinert.chars '%' hmem) rfl
  · intro hzone
    have hchars : ∀ c ∈ (formatHostPort ip.str port).toList, isInertChar c = true :=
      inert_formatHostPort hzone
    refine ⟨hchars, ?_⟩
    have hne : formatHostPort ip.str port ≠ "" := by
      unfold formatHostPort
      dsimp only
      split <;> simp
    rw [run_listen_ok, strip_of_inert hchars]
    exact ⟨⟨hasControlChar_of_inert hchars, hne⟩, ip.str, port,
      listenParts_formatHostPort hzone hleast hmost, ip, ipAddress_str hzone, rfl⟩

end Listen

/-! ## The host of a URL -/

section Url

variable {value stored : String} {c : Char}

/-- A character whose lower case is inert is inert, except the Kelvin sign. -/
theorem inert_of_lowerChar (h : isInertChar (lowerChar c) = true) (hkelvin : c ≠ '\u212a') :
    isInertChar c = true := by
  unfold lowerChar at h
  rw [if_neg hkelvin] at h
  rcases toLower_cases c with hsame | ⟨hletter, -⟩
  · rwa [hsame] at h
  · have hupper : c.isUpper = true := by
      simpa [Char.isUpper, UInt32.le_iff_toNat_le] using hletter
    simp [isInertChar, Char.isAlphanum, Char.isAlpha, hupper]

/-- What is no lower case letter is written as it is. -/
theorem eq_of_lowerChar {d : Char} (hd : d.toNat < 97) (h : lowerChar c = d) : c = d := by
  unfold lowerChar at h
  split at h
  · subst h
    exact absurd hd (by decide)
  · rcases toLower_cases c with hsame | ⟨hletter, hmoved⟩
    · exact hsame.symm.trans h
    · rw [h] at hmoved
      omega

/-- A URL without blanks and then slashes at its end. -/
def trimmedUrl (value : String) : String :=
  String.ofList (rstripBy (· = '/') (strip value).toList)

/-- What is checked of a URL without blanks and slashes around it. -/
def UrlPasses (field url : String) : Prop :=
  hasControlChar url = false ∧ ∃ parsed, urlsplit checkNetloc url.toList = some parsed ∧
    (parsed.scheme = "http".toList ∨ parsed.scheme = "https".toList) ∧
      hostname parsed.netloc ≠ [] ∧ isValidHost (String.ofList (hostname parsed.netloc)) = true ∧
        ∃ port, splitPort field parsed.netloc = .ok port ∧
          ∀ n ∈ port, ∃ n', validatePort (field ++ " port") n = .ok n'

/-- A port that is written is checked, and the URL returned. -/
theorem checkedPort_ok {field url : String} {port : Option Int} :
    (match port with
      | some n => do
          let _ ← validatePort (field ++ " port") n
          return url
      | none => return url : Except Error String) = .ok stored ↔
    (∀ n ∈ port, ∃ n', validatePort (field ++ " port") n = .ok n') ∧ url = stored := by
  cases port with
  | none => simp
  | some n =>
      simp only [bind_ok, pure_ok, exists_and_right, Option.mem_some_iff, forall_eq']

/-- A URL that passes is stored without blanks and trailing slashes. -/
theorem validateServerUrl_ok {field : String} :
    validateServerUrl checkNetloc field value = .ok stored ↔
      UrlPasses checkNetloc field (trimmedUrl value) ∧ trimmedUrl value = stored := by
  have htrim : String.ofList (rstripBy (· = '/') (strip value).toList) = trimmedUrl value := rfl
  unfold validateServerUrl UrlPasses
  simp only [bind_ok, failIf_ok, orFail_ok, exists_const, checkedPort_ok, not_and, not_not,
    Bool.not_eq_true, Bool.not_eq_false, htrim]
  constructor
  · rintro ⟨hcontrol, parsed, hparsed, hscheme, hne, hhost, port, hport, hchecked, hstored⟩
    exact ⟨⟨hcontrol, parsed, hparsed, Decidable.or_iff_not_imp_left.mpr hscheme, hne, hhost, port,
      hport, hchecked⟩, hstored⟩
  · rintro ⟨⟨hcontrol, parsed, hparsed, hscheme, hne, hhost, port, hport, hchecked⟩, hstored⟩
    exact ⟨hcontrol, parsed, hparsed, Decidable.or_iff_not_imp_left.mp hscheme, hne, hhost, port,
      hport, hchecked, hstored⟩

/-- The check of URLs stores what the validator returns. -/
theorem run_url_ok : HostCheck.serverUrl.run checkNetloc value = .ok (some stored) ↔
    UrlPasses checkNetloc "url" (trimmedUrl value) ∧ trimmedUrl value = stored := by
  rw [HostCheck.run, map_some_ok, validateServerUrl_ok]

/-- A URL is stored again as it is when it does not end in a blank. -/
theorem trimmedUrl_again :
    trimmedUrl (trimmedUrl value) = trimmedUrl value ↔
      ∀ c ∈ (trimmedUrl value).toList.getLast?, isSpace c = false := by
  constructor
  · intro hagain
    -- stripping takes nothing, for nothing is gone in the end
    have htext := congrArg String.toList hagain
    generalize trimmedUrl value = url at htext
    rw [trimmedUrl, String.toList_ofList] at htext
    have hlength := (rstripBy_sublist (· = '/') (strip url).toList).length_le
    rw [htext, strip, String.toList_ofList] at hlength
    have hsame := (stripBy_sublist isSpace url.toList).eq_of_length_le hlength
    rw [← hsame]
    have hends := (strip_ends url).2
    rwa [strip, String.toList_ofList] at hends
  · intro hlast
    have hfirst : ∀ c ∈ (trimmedUrl value).toList.head?, isSpace c = false := by
      intro c hc
      obtain ⟨tail, htail⟩ : rstripBy (· = '/') (strip value).toList <+: (strip value).toList :=
        List.rdropWhile_prefix (p := (· = '/')) _
      apply (strip_ends value).1 c
      rw [trimmedUrl, String.toList_ofList] at hc
      obtain ⟨rest, hrest⟩ := List.head?_eq_some_iff.mp hc
      rw [← htail, hrest]
      rfl
    have hstrip : strip (trimmedUrl value) = trimmedUrl value := by
      rw [strip, stripBy_eq_self_of_ends hfirst hlast, String.ofList_toList]
    have hslashes : rstripBy (· = '/') (trimmedUrl value).toList = (trimmedUrl value).toList := by
      rw [trimmedUrl, String.toList_ofList]
      exact List.rdropWhile_idempotent _ _
    rw [trimmedUrl, hstrip, hslashes, String.ofList_toList]

/-- What stands before a separator is part of the text. -/
theorem mem_partition {d : Char} {cs : List Char} (hc : c ∈ (partition d cs).1) : c ∈ cs := by
  unfold partition at hc
  cases hcut : cut? d cs with
  | none =>
      rw [hcut] at hc
      exact hc
  | some p =>
      rw [hcut] at hc
      rw [(cut?_eq_some.mp hcut).1]
      exact List.mem_append_left _ hc

/-- The host is part of the authority. -/
theorem mem_hostPort {netloc : List Char} (hc : c ∈ (hostPort netloc).1) : c ∈ netloc := by
  have hinfo : ∀ {d}, d ∈ afterLast '@' netloc → d ∈ netloc := by
    intro d hd
    exact List.mem_reverse.mp ((List.takeWhile_sublist _).subset (List.mem_reverse.mp hd))
  apply hinfo
  unfold hostPort at hc
  dsimp only at hc
  split at hc
  · next front bracketed hcut =>
      rw [(cut?_eq_some.mp hcut).1]
      exact List.mem_append_right _ (List.mem_cons_of_mem _ (mem_partition hc))
  · exact mem_partition hc

/-- Line ends are taken out before a URL is split. -/
theorem newline_not_mem_netloc {cs : List Char} {parsed : SplitResult}
    (h : urlsplit checkNetloc cs = some parsed) : '\n' ∉ parsed.netloc := by
  intro hmem
  unfold urlsplit at h
  dsimp only at h
  generalize hurl : (cs.dropWhile _).filter _ = url at h
  have hclean : '\n' ∉ url := by
    rw [← hurl]
    simp
  split at h
  · next tail hrest =>
      have htail : '\n' ∉ tail := by
        intro hnewline
        apply hclean
        have hin : '\n' ∈ '/' :: '/' :: tail := by simp [hnewline]
        rw [← hrest] at hin
        split at hin
        · next front rest hcut =>
            rw [(cut?_eq_some.mp hcut).1]
            split at hin
            · exact List.mem_append_right _ (List.mem_cons_of_mem _ hin)
            · rwa [(cut?_eq_some.mp hcut).1] at hin
        · exact hin
      split at h
      · obtain rfl := Option.some.inj h
        exact htail ((List.takeWhile_sublist _).subset hmem)
      · cases h
  · obtain rfl := Option.some.inj h
    cases hmem

/-- A host without a zone is checked in lower case. -/
theorem hostname_of_plain {netloc : List Char} (h : '%' ∉ (hostPort netloc).1) :
    hostname netloc = (hostPort netloc).1.map lowerChar := by
  unfold hostname
  dsimp only
  split
  · next front zone hcut =>
      rw [(cut?_eq_some.mp hcut).1] at h
      simp at h
  · rfl

/-- The host that is written is that of the authority. -/
theorem writtenHost_of_split {url : String} {parsed : SplitResult}
    (h : urlsplit checkNetloc url.toList = some parsed) :
    writtenHost checkNetloc url = (hostPort parsed.netloc).1 := by
  rw [writtenHost, h]

/-- The host of a URL that passed. -/
theorem inert_writtenHost_iff {field url : String} (h : UrlPasses checkNetloc field url) :
    (∀ c ∈ writtenHost checkNetloc url, isInertChar c = true) ↔
      '%' ∉ writtenHost checkNetloc url ∧ '\u212a' ∉ writtenHost checkNetloc url := by
  obtain ⟨-, parsed, hparsed, -, -, hvalid, -⟩ := h
  rw [writtenHost_of_split checkNetloc hparsed]
  constructor
  · intro hinert
    refine ⟨fun hmem => inert_ne_percent (hinert _ hmem) rfl, fun hmem => ?_⟩
    exact absurd (hinert _ hmem) (by decide)
  · rintro ⟨hpercent, hkelvin⟩ c hc
    rw [hostname_of_plain hpercent] at hvalid
    have hwritten : ∀ {d : Char}, d.toNat < 97 → d ∈ (hostPort parsed.netloc).1.map lowerChar →
        d ∈ (hostPort parsed.netloc).1 := by
      intro d hd hmem
      obtain ⟨c, hc, hlower⟩ := List.mem_map.mp hmem
      rwa [← eq_of_lowerChar hd hlower]
    have hlast : (String.ofList ((hostPort parsed.netloc).1.map lowerChar)).toList.getLast? ≠
        some '\n' := by
      intro hnewline
      rw [String.toList_ofList] at hnewline
      exact newline_not_mem_netloc checkNetloc hparsed
        (mem_hostPort (hwritten (by decide) (List.mem_of_getLast? hnewline)))
    have hzone : '%' ∉ (String.ofList ((hostPort parsed.netloc).1.map lowerChar)).toList := by
      rw [String.toList_ofList]
      exact fun hmem => hpercent (hwritten (by decide) hmem)
    have hlower := inert_of_isValidHost hvalid hlast hzone
    rw [String.toList_ofList] at hlower
    have hne : c ≠ '\u212a' := fun heq => hkelvin (heq ▸ hc)
    exact inert_of_lowerChar (hlower _ (List.mem_map_of_mem hc)) hne

/-- The host of a stored URL is inert exactly when it was given plainly. -/
theorem url_inert_iff (h : HostCheck.serverUrl.run checkNetloc value = .ok (some stored)) :
    Inert checkNetloc .serverUrl stored ↔ HostCheck.serverUrl.Plain checkNetloc value := by
  obtain ⟨hpasses, rfl⟩ := (run_url_ok checkNetloc).mp h
  have hhost := inert_writtenHost_iff checkNetloc hpasses
  constructor
  · intro hinert
    obtain ⟨-, hagain⟩ := (run_url_ok checkNetloc).mp hinert.again
    exact ⟨hhost.mp hinert.chars, trimmedUrl_again.mp hagain⟩
  · rintro ⟨hplain, hlast⟩
    have hagain := trimmedUrl_again.mpr hlast
    refine ⟨hhost.mpr hplain, ?_⟩
    rw [run_url_ok, hagain]
    exact ⟨hpasses, rfl⟩

end Url

/-- **Accepted hosts are inert** if they are plain, and only then. -/
theorem inert_iff {check : HostCheck} {value stored : String}
    (h : check.run checkNetloc value = .ok (some stored)) :
    Inert checkNetloc check stored ↔ check.Plain checkNetloc value := by
  cases check with
  | host => exact host_inert_iff checkNetloc h
  | vip => exact vip_inert_iff checkNetloc h
  | listenAddress => exact listen_inert_iff checkNetloc h
  | serverUrl => exact url_inert_iff checkNetloc h

theorem vip_is_inert :
    HostCheck.vip.run (fun _ => true) " 10.0.0.53/24 " = .ok (some "10.0.0.53/24") ∧
      Inert (fun _ => true) .vip "10.0.0.53/24" := by
  have hrun : HostCheck.vip.run (fun _ => true) " 10.0.0.53/24 " = .ok (some "10.0.0.53/24") := by
    decide
  have hplain : '%' ∉ " 10.0.0.53/24 ".toList := by decide
  exact ⟨hrun, (inert_iff (fun _ => true) hrun).mpr hplain⟩

/-- A zone is any text, also one that a shell would run. -/
theorem zone_is_not_inert :
    HostCheck.host.run (fun _ => true) "fe80::1%$(reboot)" = .ok (some "fe80::1%$(reboot)") ∧
      ¬ Inert (fun _ => true) .host "fe80::1%$(reboot)" := by
  refine ⟨by decide, fun hinert => ?_⟩
  have hdollar := hinert.chars '$' (by decide)
  cases hdollar

end AdguardAdmin.Validators
