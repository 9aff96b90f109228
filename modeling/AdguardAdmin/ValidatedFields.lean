import AdguardAdmin.Validators
import AdguardAdmin.DnsdistSpec
import AdguardAdmin.KeepalivedSpec
import AdguardAdmin.Inventory
/-!
# Fields that passed the validators

For each column of a balancer or a zone, what the control plane's own check leaves
open in the agent's check of the same field.  Addresses keep their IPv6 zone, and a
health-check name keeps what the check of it looked past; the rest nests.
-/

namespace AdguardAdmin

open GoText PyText PyAddress Validators

/-- A stored value is one that a check returned. -/
def Checked {α β : Type} (check : α → Except Error β) (value : β) : Prop :=
  ∃ raw, check raw = .ok value

/-- A bounded value is checked when it is within the bounds. -/
theorem checked_validateBetween {least most : Int} {message : String} {value : Int} :
    Checked (validateBetween least most message) value ↔ least ≤ value ∧ value ≤ most := by
  unfold Checked validateBetween
  constructor
  · rintro ⟨raw, h⟩
    obtain ⟨_, hrange, h⟩ := bind_ok.mp h
    obtain rfl : raw = value := by simpa using h
    exact Decidable.not_not.mp (failIf_ok.mp hrange)
  · intro h
    exact ⟨value, bind_ok.mpr ⟨(), failIf_ok.mpr (not_not.mpr h), rfl⟩⟩

/-! ## Listen addresses -/

/-- A port that passes is in range. -/
theorem validatePort_range {field : String} {port port' : Int}
    (h : validatePort field port = .ok port') : 1 ≤ port' ∧ port' ≤ 65535 :=
  checked_validateBetween.mp ⟨port, h⟩

/-- A port that is read from a text is in range. -/
theorem intPort_range {field text : String} {port : Int} (h : intPort field text = .ok port) :
    1 ≤ port ∧ port ≤ 65535 := by
  obtain ⟨n, -, h⟩ := bind_ok.mp h
  exact validatePort_range h

/-- The port of a listen address is in range. -/
theorem listenParts_range {value : String} {host : List Char} {port : Int}
    (h : listenParts value = .ok (host, port)) : 1 ≤ port ∧ port ≤ 65535 := by
  have hdefault : ∀ {p : List Char × Int}, p.2 = 53 → p = (host, port) →
      1 ≤ port ∧ port ≤ 65535 := by
    intro p hp hpair
    subst hpair
    simp only at hp
    omega
  unfold listenParts at h
  split at h
  · obtain ⟨⟨front, rest⟩, -, h⟩ := bind_ok.mp h
    dsimp only at h
    split at h
    · exact hdefault rfl (Except.ok.inj h)
    · obtain ⟨n, hn, h⟩ := bind_ok.mp h
      obtain ⟨rfl, rfl⟩ : front = host ∧ n = port := by simpa using h
      exact intPort_range hn
    · cases h
  · split at h
    · split at h
      · exact hdefault rfl (Except.ok.inj h)
      · obtain ⟨n, hn, h⟩ := bind_ok.mp h
        obtain rfl : n = port := by simpa using (Prod.ext_iff.mp (pure_ok.mp h)).2
        exact intPort_range hn
    · exact hdefault rfl (Except.ok.inj h)

/-- A stored listen address is a printed address and a port in range. -/
theorem checked_validateListenAddress {l : String} (h : Checked validateListenAddress l) :
    ∃ (ip : Address) (port : Int), l = formatHostPort ip.str port ∧ 1 ≤ port ∧ port ≤ 65535 := by
  obtain ⟨raw, h⟩ := h
  obtain ⟨_, -, h⟩ := bind_ok.mp h
  obtain ⟨⟨host, port⟩, hparts, h⟩ := bind_ok.mp h
  obtain ⟨ip, -, h⟩ := bind_ok.mp h
  exact ⟨ip, port, (pure_ok.mp h).symm, listenParts_range hparts⟩

/-- The host is part of a listen address. -/
theorem mem_formatHostPort {host : List Char} {port : Int} {c : Char} (hc : c ∈ host) :
    c ∈ (formatHostPort host port).toList := by
  unfold formatHostPort
  dsimp only
  split <;> simp [hc]

/-- What the agent wants of a listener. -/
theorem accepts_decodeListenEntry {l : String} :
    Accepts (Dnsdist.decodeListenEntry l) ↔
      ∃ host port, splitHostPort l = some (host, port) ∧ (∃ ip, parseIP host = some ip) ∧
        ∃ p ∈ atoi port, Dnsdist.IsPort p := by
  unfold Dnsdist.decodeListenEntry
  rw [accepts_bind]
  simp only [orFail_ok, Prod.exists]
  refine exists_congr fun host => exists_congr fun port => and_congr_right fun _ => ?_
  rw [accepts_bind_iff (q := ∃ p ∈ atoi port, Dnsdist.IsPort p), accepts_orFail]
  intro ip _
  rw [accepts_bind_iff (q := True) (fun _ _ => by simp), accepts_failIf, not_not, and_true]

/-- The agent takes no listen address with a percent sign. -/
theorem percent_not_mem_of_decodeListenEntry {l : String}
    (h : Accepts (Dnsdist.decodeListenEntry l)) : '%' ∉ l.toList := by
  obtain ⟨host, port, hsplit, ⟨ip, hip⟩, p, hp, -⟩ := accepts_decodeListenEntry.mp h
  intro hmem
  rcases mem_of_splitHostPort hsplit '%' hmem with hmem | hmem | heq | heq | heq
  · have hliteral := parseIP_chars hip '%' hmem
    rw [not_isLiteralChar_percent] at hliteral
    cases hliteral
  · rcases atoi_chars hp '%' hmem with heq | heq | hdigit
    · cases heq
    · cases heq
    · exact absurd hdigit (by decide)
  all_goals cases heq

/-- The digits of a port and the characters of an address leave the joints alone. -/
theorem joints_not_mem_toDigits (n : Nat) :
    ':' ∉ Nat.toDigits 10 n ∧ NoBrackets (Nat.toDigits 10 n) :=
  ⟨not_mem_toDigits (by decide) n, not_mem_toDigits (by decide) n, not_mem_toDigits (by decide) n⟩

/-- An address has no brackets. -/
theorem noBrackets_of_parseAddr {cs : List Char} {ip : IpLiterals.Ip}
    (h : parseAddr cs = some ip) : NoBrackets cs := by
  constructor
  · intro hmem
    exact absurd (parseAddr_chars h '[' hmem) (by decide)
  · intro hmem
    exact absurd (parseAddr_chars h ']' hmem) (by decide)

/-- A zoneless address and a port are taken apart again. -/
theorem splitHostPort_formatHostPort {ip : Address} (hscope : ip.scope = []) (port : Int) :
    splitHostPort (formatHostPort ip.str port) =
      some (String.ofList ip.str, String.ofList (Nat.toDigits 10 port.toNat)) := by
  have hread : parseAddr ip.str = some ip.ip := by rw [parseAddr_str, if_pos hscope]
  obtain ⟨a, ha, hip, -⟩ := ipAddress_of_parseAddr hread
  unfold formatHostPort
  dsimp only
  rw [ha]
  cases ip with
  | v6 x scope =>
      cases a with
      | v6 y scope' =>
          exact splitHostPort_bracketed (noBrackets_of_parseAddr hread)
            (joints_not_mem_toDigits _)
      | v4 y => cases hip
  | v4 x =>
      cases a with
      | v6 y scope' => cases hip
      | v4 y =>
          have hcolon : ':' ∉ (Address.v4 x).str :=
            colon_not_mem_of_parseIpv4 (IpLiterals.parseIpv4_format x)
          exact splitHostPort_plain hcolon (noBrackets_of_parseAddr hread)
            (joints_not_mem_toDigits _)

/-- **Listen addresses nest** but for IPv6 zones. -/
theorem listenEntry_iff {l : String} (h : Checked validateListenAddress l) :
    Accepts (Dnsdist.decodeListenEntry l) ↔ '%' ∉ l.toList := by
  refine ⟨percent_not_mem_of_decodeListenEntry, fun hpercent => ?_⟩
  obtain ⟨ip, port, rfl, hleast, hmost⟩ := checked_validateListenAddress h
  have hscope : ip.scope = [] := by
    by_contra hne
    exact hpercent (mem_formatHostPort ((percent_mem_str_iff ip).mpr hne))
  have hread : parseIP (String.ofList ip.str) = some (unmap ip.ip) := by
    simp [parseIP, parseAddr_str, hscope]
  have hport : Int.ofNat port.toNat = port := Int.toNat_of_nonneg (by omega)
  have hatoi := atoi_toDigits (n := port.toNat) (by omega)
  rw [hport] at hatoi
  exact accepts_decodeListenEntry.mpr
    ⟨_, _, splitHostPort_formatHostPort hscope port, ⟨_, hread⟩, port, hatoi, hleast, hmost⟩

/-- What all items of a list were checked by holds of each of them. -/
theorem checked_of_mapM {check : String → Except Error String} {raw out : List String}
    (h : raw.mapM check = .ok out) : ∀ l ∈ out, Checked check l := by
  induction raw generalizing out with
  | nil =>
      obtain rfl : [] = out := pure_ok.mp h
      simp
  | cons r raw ih =>
      rw [List.mapM_cons] at h
      obtain ⟨l, hl, h⟩ := bind_ok.mp h
      obtain ⟨rest, hrest, h⟩ := bind_ok.mp h
      obtain rfl : l :: rest = out := pure_ok.mp h
      exact List.forall_mem_cons.mpr ⟨⟨r, hl⟩, ih hrest⟩

/-- Checked listen addresses are there, and checked one by one. -/
theorem checked_checkListen {ls : List String} (h : Checked checkListen ls) :
    ls ≠ [] ∧ ∀ l ∈ ls, Checked validateListenAddress l := by
  obtain ⟨raw, h⟩ := h
  obtain ⟨out, hout, h⟩ := bind_ok.mp h
  obtain ⟨_, hne, h⟩ := bind_ok.mp h
  obtain rfl : out = ls := pure_ok.mp h
  exact ⟨failIf_ok.mp hne, checked_of_mapM hout⟩

/-! ## Networks -/

/-- A checked network is written as an address with a prefix. -/
theorem checked_validateCidr {a : String} (h : Checked validateCidr a) :
    ∃ p : Address × Nat, a = String.ofList (strPrefix p) ∧ p.2 ≤ bitLen p.1.ip := by
  obtain ⟨raw, h⟩ := h
  obtain ⟨p, hp, h⟩ := bind_ok.mp h
  exact ⟨p, (pure_ok.mp h).symm, ipNetwork_le (orFail_ok.mp hp)⟩

/-- **Access lists nest** but for IPv6 zones. -/
theorem aclEntry_iff {a : String} (h : Checked validateCidr a) :
    Accepts (Dnsdist.decodeAclEntry a) ↔ '%' ∉ a.toList := by
  unfold Dnsdist.decodeAclEntry
  rw [accepts_bind_iff (q := True) (fun _ _ => by simp), accepts_orFail, and_true]
  obtain ⟨p, rfl, hlen⟩ := checked_validateCidr h
  constructor
  · rintro ⟨r, hr⟩
    exact percent_not_mem_of_parseCIDR hr
  · intro hpercent
    rw [String.toList_ofList, percent_mem_strPrefix_iff, not_not] at hpercent
    exact ⟨_, parseCIDR_strPrefix hpercent hlen⟩

/-! ## The VIP -/

/-- A checked VIP is written as a unicast address with a prefix. -/
theorem checked_validateVip {vip : String} (h : Checked validateVip (some vip)) :
    ∃ p : Address × Nat, vip = String.ofList (strPrefix p) ∧ p.2 ≤ bitLen p.1.ip ∧
      isUnicast (unmap p.1.ip) = true := by
  obtain ⟨raw, h⟩ := h
  unfold validateVip at h
  split at h
  · cases h
  · obtain ⟨_, -, h⟩ := bind_ok.mp h
    obtain ⟨p, hp, h⟩ := bind_ok.mp h
    obtain ⟨_, hunicast, h⟩ := bind_ok.mp h
    have hvip : String.ofList (strPrefix p) = vip := by simpa using h
    exact ⟨p, hvip.symm, ipInterface_le (orFail_ok.mp hp), by simpa using failIf_ok.mp hunicast⟩

/-- The address of a printed network stands before the slash. -/
theorem beforeSlash_strPrefix {p : Address × Nat} (hscope : p.1.scope = []) :
    beforeSlash (String.ofList (strPrefix p)) = String.ofList p.1.str := by
  have hall : ∀ c ∈ p.1.str, decide (c ≠ '/') = true := by
    intro c hc
    have hne : c ≠ '/' := fun heq => slash_not_mem_str hscope (heq ▸ hc)
    simpa using hne
  unfold beforeSlash strPrefix
  rw [String.toList_ofList, List.takeWhile_append_of_pos hall]
  simp

/-- A zoneless VIP is read, prefix and all, and without its prefix. -/
theorem readVip_iff {vip : String} (h : Checked validateVip (some vip)) :
    '%' ∉ vip.toList ↔ ∃ ip, Keepalived.decodeVip vip = .ok ip ∧
      parseIP (beforeSlash vip) = some ip := by
  obtain ⟨p, rfl, hlen, hunicast⟩ := checked_validateVip h
  unfold Keepalived.decodeVip
  simp only [bind_ok, orFail_ok, failIf_ok, pure_ok, Prod.exists]
  constructor
  · intro hpercent
    have hscope : p.1.scope = [] := by
      rwa [String.toList_ofList, percent_mem_strPrefix_iff, not_not] at hpercent
    refine ⟨unmap p.1.ip, ⟨_, _, parseCIDR_strPrefix hscope hlen, (), by simp [hunicast], rfl⟩, ?_⟩
    simp [beforeSlash_strPrefix hscope, parseIP, parseAddr_str, hscope]
  · rintro ⟨ip, ⟨ip', n, hread, -⟩, -⟩
    exact percent_not_mem_of_parseCIDR hread

/-- **VIPs nest** but for IPv6 zones, and the kernel balancer's VIP is the same address. -/
theorem decodeVip_iff {vip : String} (h : Checked validateVip (some vip)) {ip : IpLiterals.Ip} :
    Keepalived.decodeVip vip = .ok ip ↔
      '%' ∉ vip.toList ∧ parseIP (beforeSlash vip) = some ip := by
  constructor
  · intro hdecode
    have hpercent : '%' ∉ vip.toList := by
      obtain ⟨r, hread, -⟩ := bind_ok.mp hdecode
      exact percent_not_mem_of_parseCIDR (orFail_ok.mp hread)
    obtain ⟨ip', hdecode', hip⟩ := (readVip_iff h).mp hpercent
    obtain rfl := Except.ok.inj (hdecode'.symm.trans hdecode)
    exact ⟨hpercent, hip⟩
  · rintro ⟨hpercent, hip⟩
    obtain ⟨ip', hdecode', hip'⟩ := (readVip_iff h).mp hpercent
    obtain rfl := Option.some.inj (hip'.symm.trans hip)
    exact hdecode'

/-! ## Interfaces and images -/

/-- A checked interface is left out or fits the agent's pattern. -/
theorem checked_validateInterface {name : String} (h : Checked validateInterface name) :
    name = "" ∨ Keepalived.isIface name = true := by
  obtain ⟨raw, h⟩ := h
  obtain ⟨_, hname, h⟩ := bind_ok.mp h
  obtain rfl : strip raw = name := pure_ok.mp h
  by_cases hempty : strip raw = ""
  · exact Or.inl hempty
  · have hmatch := failIf_ok.mp hname
    have hiface : isInterfaceName (strip raw) = true := by simpa [hempty] using hmatch
    exact Or.inr hiface

/-- What the agent wants of an image reference. -/
def ImageFits (image : String) : Prop :=
  image = "" ∨ containsAny image " \t\n\"'" = false ∧ image.toList.head? ≠ some '-'

/-- The agent takes an image when it fits its own pattern. -/
theorem accepts_decodeImage {image : String} :
    Accepts (Dnsdist.decodeImage image) ↔ ImageFits image := by
  unfold Dnsdist.decodeImage ImageFits
  rw [accepts_bind_iff (q := True) (fun _ _ => by simp), accepts_failIf, and_true]
  by_cases hempty : image = "" <;> simp [hempty]

def isImageChar (c : Char) : Bool := isNameChar c || c = '/' || c = ':' || c = '@'

/-- Lower case letters and digits are in names. -/
theorem isNameChar_of_isLowerOrDigit {c : Char} (h : isLowerOrDigit c = true) :
    isNameChar c = true := by
  have halnum : c.isAlphanum = true := by
    simp only [isLowerOrDigit, Bool.or_eq_true, Bool.and_eq_true, decide_eq_true_eq] at h
    rw [isAlphanum_iff]
    rcases h with hlower | hdigit
    · exact Or.inl (Or.inr hlower)
    · exact Or.inr hdigit
  simp [isNameChar, halnum]

/-- A text is its front and, behind the separator, its tail. -/
theorem mem_of_optionalTail {sep c : Char} {cs front : List Char} {tail : Option (List Char)}
    (h : optionalTail sep cs = (front, tail)) (hc : c ∈ cs) :
    c ∈ front ∨ c = sep ∨ ∃ t, tail = some t ∧ c ∈ t := by
  unfold optionalTail at h
  split at h
  · obtain ⟨rfl, rfl⟩ := Prod.mk.inj h
    exact Or.inl hc
  · next f t hcut =>
      obtain ⟨rfl, rfl⟩ := Prod.mk.inj h
      rw [(cut?_eq_some.mp hcut).1] at hc
      simp only [List.mem_append, List.mem_cons] at hc
      rcases hc with hc | hc | hc
      · exact Or.inl hc
      · exact Or.inr (Or.inl hc)
      · exact Or.inr (Or.inr ⟨t, rfl, hc⟩)

/-- A part of a path consists of characters of names. -/
theorem isPathComponent_chars {cs : List Char} (h : isPathComponent cs = true) {c : Char}
    (hc : c ∈ cs) : isNameChar c = true := by
  by_cases hsep : (c = '.' || c = '_' || c = '-') = true
  · simp only [Bool.or_eq_true, decide_eq_true_eq] at hsep
    rcases hsep with (rfl | rfl) | rfl <;> decide
  · obtain ⟨part, hpart, hmem⟩ := (IpLiterals.mem_splitOnP_iff
      (p := fun c => c = '.' || c = '_' || c = '-')).mpr ⟨hc, Bool.eq_false_of_not_eq_true hsep⟩
    have hlower := List.all_eq_true.mp h part hpart
    simp only [Bool.and_eq_true, List.all_eq_true] at hlower
    exact isNameChar_of_isLowerOrDigit (hlower.2 c hmem)

/-- A digest consists of characters of images. -/
theorem isDigest_chars {cs : List Char} (h : isDigest cs = true) {c : Char} (hc : c ∈ cs) :
    isImageChar c = true := by
  simp only [isDigest, Bool.and_eq_true, decide_eq_true_eq, List.all_eq_true] at h
  obtain ⟨⟨hfront, -⟩, hhex⟩ := h
  rw [← List.take_append_drop 7 cs, List.mem_append, hfront] at hc
  rcases hc with hc | hc
  · have hfixed : "sha256:".toList.all isImageChar = true := by decide
    exact List.all_eq_true.mp hfixed c hc
  · have hlower : isLowerOrDigit c = true := by
      have hrange := hhex c hc
      simp only [Bool.or_eq_true, Bool.and_eq_true, decide_eq_true_eq] at hrange
      simp only [isLowerOrDigit, Bool.or_eq_true, Bool.and_eq_true, decide_eq_true_eq]
      rcases hrange with ⟨hleast, hmost⟩ | hdigit
      · exact Or.inl ⟨hleast, Char.le_trans hmost (by decide)⟩
      · exact Or.inr hdigit
    simp [isImageChar, isNameChar_of_isLowerOrDigit hlower]

/-- The characters of an image reference are those of one. -/
theorem isImageRef_chars {cs : List Char} (h : isImageRef cs = true) {c : Char} (hc : c ∈ cs) :
    isImageChar c = true := by
  unfold isImageRef at h
  generalize hdigest : optionalTail '@' cs = first at h
  obtain ⟨reference, digest⟩ := first
  dsimp only at h
  generalize htag : optionalTail ':' reference = second at h
  obtain ⟨path, tag⟩ := second
  simp only [Bool.and_eq_true, List.all_eq_true] at h
  obtain ⟨⟨hpath, htagOk⟩, hdigestOk⟩ := h
  rcases mem_of_optionalTail hdigest hc with hc | rfl | ⟨d, rfl, hc⟩
  · rcases mem_of_optionalTail htag hc with hc | rfl | ⟨t, rfl, hc⟩
    · by_cases hslash : c = '/'
      · simp [isImageChar, hslash]
      · obtain ⟨component, hcomponent, hmem⟩ := IpLiterals.mem_splitOn_iff.mpr ⟨hc, hslash⟩
        simp [isImageChar, isPathComponent_chars (hpath component hcomponent) hmem]
    · decide
    · simp only [Option.all_some, isTag, Bool.and_eq_true, List.all_eq_true] at htagOk
      simp [isImageChar, htagOk.2 c hc]
  · decide
  · exact isDigest_chars hdigestOk hc

/-- An optional part begins at its separator, and not before. -/
theorem optionalTail_cons {sep c : Char} (hc : c ≠ sep) (cs : List Char) :
    ∃ front tail, optionalTail sep (c :: cs) = (c :: front, tail) := by
  unfold optionalTail cut?
  rw [if_neg hc]
  cases cut? sep cs with
  | none => exact ⟨cs, none, rfl⟩
  | some p => exact ⟨p.1, some p.2, rfl⟩

/-- A reference does not look like an option of the command line it ends up on. -/
theorem isImageRef_head {cs : List Char} (h : isImageRef cs = true) : cs.head? ≠ some '-' := by
  intro hhead
  obtain ⟨rest, rfl⟩ : ∃ rest, cs = '-' :: rest := by
    cases cs with
    | nil => cases hhead
    | cons c cs => exact ⟨cs, by rw [Option.some.inj hhead]⟩
  unfold isImageRef at h
  obtain ⟨reference, digest, hdigest⟩ := optionalTail_cons (by decide : '-' ≠ '@') rest
  obtain ⟨path, tag, htag⟩ := optionalTail_cons (by decide : '-' ≠ ':') reference
  rw [hdigest] at h
  dsimp only at h
  rw [htag] at h
  simp only [Bool.and_eq_true, List.all_eq_true] at h
  obtain ⟨⟨hpath, -⟩, -⟩ := h
  obtain ⟨first, others, hsplit⟩ := List.exists_cons_of_ne_nil (List.splitOn_ne_nil '/' path)
  have hcomponent : isPathComponent ('-' :: first) = true := by
    apply hpath
    rw [List.splitOn_cons_eq_if_modifyHead, hsplit]
    simp
  unfold isPathComponent at hcomponent
  rw [List.splitOnP_cons_eq_if_modifyHead] at hcomponent
  simp at hcomponent

/-- A checked image is a reference. -/
theorem isImageRef_of_checked {image : String} (h : Checked validateImageRef image) :
    isImageRef image.toList = true := by
  obtain ⟨raw, h⟩ := h
  obtain ⟨_, hform, h⟩ := bind_ok.mp h
  obtain rfl : strip raw = image := pure_ok.mp h
  have hform := failIf_ok.mp hform
  simp only [not_or] at hform
  simpa using hform.1

/-- A checked reference is one the agent takes. -/
theorem imageFits_of_checked {image : String} (h : Checked validateImageRef image) :
    ImageFits image := by
  have href := isImageRef_of_checked h
  refine Or.inr ⟨?_, isImageRef_head href⟩
  unfold containsAny
  rw [List.any_eq_false]
  intro c hc hbad
  have hchar := isImageRef_chars href hc
  have hnone : " \t\n\"'".toList.all (fun d => !isImageChar d) = true := by decide
  have hnot := List.all_eq_true.mp hnone c (of_decide_eq_true hbad)
  simp [hchar] at hnot

end AdguardAdmin
