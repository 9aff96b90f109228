import AdguardAdmin.ValidatedFields
/-!
# Health-check names

The control plane checks a health-check name without the dots at its end and
without the blanks around what is left, as a hostname or an address literal, and
stores the name with both.  The agent wants labels, each followed by a dot, and
counts the last dot.  `hcName_iff` says which stored names it refuses.
-/

namespace AdguardAdmin

open GoText PyText PyAddress Validators

/-- Neither an IPv6 literal nor a name with blanks, with more than one dot at its
end or of more than 253 characters. -/
def HcNameFits (name : String) : Prop :=
  ':' ∉ name.toList ∧ (∀ c ∈ name.toList, isSpace c = false) ∧ ¬ ['.', '.'] <:+ name.toList ∧
    name.length ≤ 253

/-! ## Labels -/

def isLabelChar (c : Char) : Bool := c.isAlphanum || c = '-'

/-- Characters of labels are ASCII, and neither colons nor spaces. -/
theorem isLabelChar_toNat {c : Char} (h : isLabelChar c = true) :
    c.toNat < 128 ∧ c ≠ ':' ∧ isSpace c = false := by
  have hrange : c.toNat = 45 ∨ (48 ≤ c.toNat ∧ c.toNat ≤ 57) ∨ (65 ≤ c.toNat ∧ c.toNat ≤ 90) ∨
      (97 ≤ c.toNat ∧ c.toNat ≤ 122) := by
    simp only [isLabelChar, Bool.or_eq_true, decide_eq_true_eq] at h
    rcases h with halnum | rfl
    · exact Or.inr (toNat_of_isAlphanum halnum)
    · exact Or.inl rfl
  refine ⟨by omega, ?_, ?_⟩
  · rintro rfl
    have hcolon : ':'.toNat = 58 := rfl
    omega
  · unfold isSpace
    rw [decide_eq_false_iff_not]
    omega

/-- A label consists of characters of labels. -/
theorem mem_of_isLabel {cs : List Char} (h : Dnsdist.isLabel cs = true) {c : Char} (hc : c ∈ cs) :
    isLabelChar c = true := by
  simp only [Dnsdist.isLabel, Bool.and_eq_true, List.all_eq_true] at h
  exact h.2 c hc

/-- The labels of a name the agent takes; the empty one after the last dot is not
among them. -/
def frontLabels (s : String) : List (List Char) := dropFinalDot (s.toList.splitOn '.')

/-- A name is one of labels, with at most one dot at its end. -/
theorem isFqdn_iff {s : String} :
    Dnsdist.isFqdn s = true ↔ frontLabels s ≠ [] ∧ ∀ l ∈ frontLabels s, Dnsdist.isLabel l = true := by
  simp [Dnsdist.isFqdn, frontLabels, dropFinalDot]

/-- Every character of such a name is a dot or belongs to a label. -/
theorem isFqdn_chars {s : String} (h : Dnsdist.isFqdn s = true) {c : Char} (hc : c ∈ s.toList) :
    c = '.' ∨ isLabelChar c = true := by
  obtain ⟨-, hlabels⟩ := isFqdn_iff.mp h
  by_cases hdot : c = '.'
  · exact Or.inl hdot
  · obtain ⟨label, hlabel, hmem⟩ := IpLiterals.mem_splitOn_iff.mpr ⟨hc, hdot⟩
    refine Or.inr (mem_of_isLabel (hlabels label ?_) hmem)
    unfold frontLabels dropFinalDot
    split
    · next hlast =>
        -- the label that is dropped has no characters
        have hsplit := List.dropLast_append_getLast? _ hlast
        rw [← hsplit] at hlabel
        rcases List.mem_append.mp hlabel with hfront | hempty
        · exact hfront
        · obtain rfl : label = [] := by simpa using hempty
          cases hmem
    · exact hlabel

/-- A dot at the end adds an empty field. -/
theorem splitOn_dot (cs : List Char) : (cs ++ ['.']).splitOn '.' = cs.splitOn '.' ++ [[]] := by
  rw [List.splitOn_append_cons_self]
  simp

/-- The dot at the end adds no label. -/
theorem frontLabels_dot (cs : List Char) : frontLabels (String.ofList (cs ++ ['.'])) =
    cs.splitOn '.' := by
  simp [frontLabels, dropFinalDot, splitOn_dot]

/-- A name ends in at most one dot. -/
theorem not_isFqdn_of_two_dots {s : String} (h : ['.', '.'] <:+ s.toList) :
    Dnsdist.isFqdn s = false := by
  obtain ⟨front, hfront⟩ := h
  have hs : s = String.ofList ((front ++ ['.']) ++ ['.']) := by
    rw [← String.toList_inj]
    simp [← hfront]
  rw [← Bool.not_eq_true, isFqdn_iff]
  rintro ⟨-, hlabels⟩
  rw [hs, frontLabels_dot, splitOn_dot] at hlabels
  have hempty := hlabels [] (by simp)
  cases hempty

/-! ## Length -/

/-- The size of a text is that of its characters. -/
theorem utf8ByteSize_ofList_cons (c : Char) (cs : List Char) :
    (String.ofList (c :: cs)).utf8ByteSize = c.utf8Size + (String.ofList cs).utf8ByteSize := by
  have happend : String.ofList (c :: cs) = String.singleton c ++ String.ofList cs := by
    rw [← String.toList_inj]
    simp
  simp [happend]

/-- An ASCII text has one byte for each character. -/
theorem utf8ByteSize_of_ascii {cs : List Char} (h : ∀ c ∈ cs, c.toNat < 128) :
    (String.ofList cs).utf8ByteSize = cs.length := by
  induction cs with
  | nil => rfl
  | cons c cs ih =>
      have hc : c.utf8Size = 1 := by
        unfold Char.utf8Size
        rw [if_pos]
        rw [UInt32.le_iff_toNat_le]
        exact Nat.le_of_lt_succ (h c List.mem_cons_self)
      rw [utf8ByteSize_ofList_cons, hc, ih fun d hd => h d (List.mem_cons_of_mem _ hd),
        List.length_cons, Nat.add_comm]

/-- A name has one byte for each character. -/
theorem utf8ByteSize_of_isFqdn {s : String} (h : Dnsdist.isFqdn s = true) :
    s.utf8ByteSize = s.length := by
  have hascii : ∀ c ∈ s.toList, c.toNat < 128 := by
    intro c hc
    rcases isFqdn_chars h hc with rfl | hlabel
    · decide
    · exact (isLabelChar_toNat hlabel).1
  have hsize := utf8ByteSize_of_ascii hascii
  rwa [String.ofList_toList, String.length_toList] at hsize

/-! ## What the control plane checked -/

/-- Text that does not end in a separator has a last field. -/
theorem getLast?_splitOn {sep : Char} {cs : List Char} (hne : cs ≠ [])
    (hlast : cs.getLast? ≠ some sep) : (cs.splitOn sep).getLast? ≠ some [] := by
  induction cs with
  | nil => exact absurd rfl hne
  | cons c cs ih =>
      rw [List.splitOn_cons_eq_if_modifyHead]
      obtain ⟨first, rest, hsplit⟩ := List.exists_cons_of_ne_nil (List.splitOn_ne_nil sep cs)
      cases cs with
      | nil =>
          have hc : c ≠ sep := by simpa using hlast
          simp [hc]
      | cons d cs =>
          have htail := ih (by simp) (by simpa using hlast)
          rw [hsplit] at htail ⊢
          split
          · simpa using htail
          · cases rest with
            | nil => simp
            | cons next rest => simpa using htail

/-- Digits are letters or digits. -/
theorem isAlphanum_of_decDigit? {c : Char} (h : (IpLiterals.decDigit? c).isSome = true) :
    c.isAlphanum = true := by
  unfold IpLiterals.decDigit? at h
  split at h
  · next hdigit => exact isAlphanum_iff.mpr (Or.inr hdigit)
  · cases h

/-- A literal is a name of four labels or contains a colon. -/
theorem labels_of_ipAddress {cs : List Char} {a : Address} (h : ipAddress cs = some a)
    (hcolon : ':' ∉ cs) : ∀ l ∈ cs.splitOn '.', Dnsdist.isLabel l = true := by
  unfold ipAddress at h
  split at h
  · next x hx =>
      intro l hl
      obtain ⟨hne, hlen, hdigits⟩ := IpLiterals.parseIpv4_fields hx l hl
      simp only [Dnsdist.isLabel, Bool.and_eq_true, decide_eq_true_eq, List.all_eq_true]
      refine ⟨⟨by simpa using hne, by omega⟩, fun c hc => ?_⟩
      simp [isAlphanum_of_decDigit? (hdigits c hc)]
  · split at h
    · cases h
    · obtain ⟨⟨addr, scope⟩, hsplit, h⟩ := Option.bind_eq_some_iff.mp h
      obtain ⟨x, hx, -⟩ := Option.bind_eq_some_iff.mp h
      have hmem := IpLiterals.colon_mem_of_parseIpv6 hx
      unfold splitScopeId at hsplit
      split at hsplit
      · obtain ⟨rfl, -⟩ : cs = addr ∧ [] = scope := by simpa using hsplit
        exact absurd hmem hcolon
      · next addr' scope' hcut =>
          split at hsplit
          · cases hsplit
          · obtain ⟨rfl, rfl⟩ : addr' = addr ∧ scope' = scope := by simpa using hsplit
            rw [(cut?_eq_some.mp hcut).1] at hcolon
            exact absurd (List.mem_append_left _ hmem) hcolon

/-- A label of a host is one of a name. -/
theorem isLabel_of_isHostLabel {cs : List Char} (h : isHostLabel cs = true) :
    Dnsdist.isLabel cs = true := by
  simp only [isHostLabel, Bool.and_eq_true] at h
  simp only [Dnsdist.isLabel, Bool.and_eq_true]
  exact h.1.1

/-- The labels of a hostname are labels, if it has no spaces and no dot at its end. -/
theorem labels_of_isHostname {cs : List Char} (h : isHostname cs = true)
    (hspace : ∀ c ∈ cs, isSpace c = false) (hlast : cs.getLast? ≠ some '.') :
    ∀ l ∈ cs.splitOn '.', Dnsdist.isLabel l = true := by
  have hbody : beforeEnd cs = cs := by
    unfold beforeEnd
    rw [if_neg]
    intro hnewline
    have hblank := hspace '\n' (List.mem_of_getLast? hnewline)
    exact absurd hblank (by decide)
  unfold isHostname at h
  rw [hbody] at h
  simp only [Bool.and_eq_true, decide_eq_true_eq] at h
  obtain ⟨⟨⟨hlen, -⟩, -⟩, hlabels⟩ := h
  have hne : cs ≠ [] := by
    rintro rfl
    simp at hlen
  unfold dropFinalDot at hlabels
  rw [if_neg (getLast?_splitOn hne hlast)] at hlabels
  intro l hl
  exact isLabel_of_isHostLabel (List.all_eq_true.mp hlabels l hl)

/-- A stored name ends in a dot, and what is left of it passed the check. -/
theorem checked_checkHcName {name : String} (h : Checked checkHcName name) :
    name.toList.getLast? = some '.' ∧
      isValidHost (strip (String.ofList (rstripBy (· = '.') name.toList))) = true := by
  obtain ⟨raw, h⟩ := h
  obtain ⟨host, hhost, h⟩ := bind_ok.mp h
  obtain ⟨_, hvalid, -⟩ := bind_ok.mp hhost
  rw [pure_ok] at h
  rw [h] at hvalid
  refine ⟨?_, by simpa using failIf_ok.mp hvalid⟩
  rw [← h]
  split
  · assumption
  · simp

/-- **Health-check names nest** but for the four flaws. -/
theorem hcName_iff {name : String} (h : Checked checkHcName name) :
    Dnsdist.isFqdn name = true ∧ name.utf8ByteSize ≤ 253 ↔ HcNameFits name := by
  constructor
  · rintro ⟨hfqdn, hsize⟩
    rw [utf8ByteSize_of_isFqdn hfqdn] at hsize
    refine ⟨?_, ?_, ?_, hsize⟩
    · intro hcolon
      rcases isFqdn_chars hfqdn hcolon with heq | hlabel
      · cases heq
      · exact (isLabelChar_toNat hlabel).2.1 rfl
    · intro c hc
      rcases isFqdn_chars hfqdn hc with rfl | hlabel
      · decide
      · exact (isLabelChar_toNat hlabel).2.2
    · intro hdots
      rw [not_isFqdn_of_two_dots hdots] at hfqdn
      cases hfqdn
  · rintro ⟨hcolon, hspace, hdots, hlen⟩
    obtain ⟨hdot, hvalid⟩ := checked_checkHcName h
    obtain ⟨n, hname, hlast⟩ := rstripBy_spec '.' name.toList
    generalize rstripBy (· = '.') name.toList = host at hvalid hname hlast
    -- exactly one dot stands at the end
    obtain rfl : n = 1 := by
      match n with
      | 0 =>
          rw [hname] at hdot
          simp [hlast] at hdot
      | 1 => rfl
      | n + 2 =>
          refine absurd ⟨host ++ List.replicate n '.', ?_⟩ hdots
          rw [hname, List.append_assoc, List.replicate_add]
          rfl
    have hmem : ∀ c ∈ host, c ∈ name.toList := by
      intro c hc
      rw [hname]
      exact List.mem_append_left _ hc
    have hstrip : strip (String.ofList host) = String.ofList host := by
      unfold strip
      rw [String.toList_ofList, stripBy_eq_self fun c hc => hspace c (hmem c hc)]
    have hlabels : ∀ l ∈ host.splitOn '.', Dnsdist.isLabel l = true := by
      rw [hstrip] at hvalid
      simp only [isValidHost, String.toList_ofList, Bool.and_eq_true, Bool.or_eq_true,
        Option.isSome_iff_exists] at hvalid
      rcases hvalid.2 with ⟨a, ha⟩ | hhostname
      · exact labels_of_ipAddress ha fun hc => hcolon (hmem _ hc)
      · exact labels_of_isHostname hhostname (fun c hc => hspace c (hmem c hc)) hlast
    have heq : name = String.ofList (host ++ ['.']) := by
      rw [← String.toList_inj, hname, String.toList_ofList]
      rfl
    have hfqdn : Dnsdist.isFqdn name = true := by
      rw [isFqdn_iff, heq, frontLabels_dot]
      exact ⟨List.splitOn_ne_nil _ _, hlabels⟩
    exact ⟨hfqdn, by rw [utf8ByteSize_of_isFqdn hfqdn]; exact hlen⟩

end AdguardAdmin
