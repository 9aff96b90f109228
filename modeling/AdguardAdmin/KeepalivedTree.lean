import AdguardAdmin.BlockText
import AdguardAdmin.InertHosts
import AdguardAdmin.IpvsStatus
/-!
# The tree of a keepalived configuration

What a spec means to keepalived is a tree: one block of global definitions, the script of the
DNS check, the VRRP instance, and a virtual server for each port and protocol with a real server
for each backend.  What the agent writes is the print of that tree (`render_eq`), so keepalived
reads the tree exactly when each text that the spec puts into it is read as one word or as one
string.
-/

namespace AdguardAdmin.Keepalived

open GoText IpLiterals BlockText

/-! ## The tree of a spec -/

def keywords (texts : List String) : List Word := texts.map .plain

/-- A line of words without quotes. -/
def setting (texts : List String) : Item := .line (keywords texts)

def scriptSetting (key target : String) : Item :=
  .line [.plain key, .quoted (probeBinary ++ " probe-dns " ++ target)]

def instanceName (s : Spec) : String := "adguard_admin_" ++ toString s.routerId

def globalsTree (s : Spec) (iface : String) : Item :=
  .block (keywords ["global_defs"]) ([
    setting ["enable_script_security"],
    setting ["script_user", "root"]] ++
    if s.ipvsOn then
      [setting ["lvs_sync_daemon", iface, instanceName s, "id", toString s.routerId]]
    else [])

def timing : List Item := [
  setting ["interval", "2"],
  setting ["timeout", "2"],
  setting ["fall", "2"],
  setting ["rise", "2"],
  setting ["weight", "-60"]]

def scriptTree (checkDns : String) : List Item :=
  if checkDns = "" then []
  else [.block (keywords ["vrrp_script", "chk_dns"]) (scriptSetting "script" checkDns :: timing)]

def peersTree (peers : List String) : List Item :=
  if peers = [] then []
  else [.block (keywords ["unicast_peer"]) (peers.map fun p => setting [p])]

def trackTree (checkDns : String) : List Item :=
  if checkDns = "" then [] else [.block (keywords ["track_script"]) [setting ["chk_dns"]]]

def instanceTree (s : Spec) (iface : String) : Item :=
  .block (keywords ["vrrp_instance", instanceName s]) ([
    setting ["state", "BACKUP"],
    setting ["interface", iface],
    setting ["virtual_router_id", toString s.routerId],
    setting ["priority", toString s.priority],
    setting ["advert_int", "1"],
    .block (keywords ["authentication"]) [
      setting ["auth_type", "PASS"],
      setting ["auth_pass", s.authPass]],
    setting ["unicast_src_ip", s.srcIp]] ++
    peersTree s.peers ++
    [.block (keywords ["virtual_ipaddress"]) [setting [s.vip]]] ++
    trackTree s.checkDns)

def backendTree (v : IpvsSpec) (b : Backend) : Item :=
  .block (keywords ["real_server", b.address, toString b.port]) [
    setting ["weight", toString b.weight],
    setting ["inhibit_on_failure"],
    .block (keywords ["MISC_CHECK"]) [
      scriptSetting "misc_path" (joinHostPort b.address (toString b.port)),
      setting ["misc_timeout", toString v.check.timeoutS],
      setting ["retry", toString v.check.retry],
      setting ["delay_before_retry", "1"]]]

def virtualServerTree (v : IpvsSpec) (port : Int) (proto : String) : Item :=
  .block (keywords ["virtual_server", v.vip, toString port]) ([
    setting ["delay_loop", toString v.check.intervalS],
    setting ["lvs_sched", v.algo],
    setting ["lvs_method", "DR"],
    setting ["protocol", proto.toUpper]] ++
    v.backends.map (backendTree v))

def ipvsTree (s : Spec) : List Item :=
  match s.ipvs with
  | some v =>
      if s.ipvsOn then v.ports.flatMap fun port => v.protocols.map (virtualServerTree v port)
      else []
  | none => []

/-- The tree of a spec, on an interface. -/
def tree (s : Spec) (iface : String) : List Item :=
  globalsTree s iface :: scriptTree s.checkDns ++ instanceTree s iface :: ipvsTree s

/-! ## The text is the print of the tree -/

/-- Items are printed one after the other. -/
theorem printAll_append (indent : String) (items items' : List Item) :
    printAll indent (items ++ items') = printAll indent items ++ printAll indent items' := by
  induction items with
  | nil => simp [printAll]
  | cons item items ih => rw [List.cons_append, printAll, printAll, ih, String.append_assoc]

/-- Texts that are prints of items join to the print of them all. -/
theorem join_map {α : Type} {f : α → String} {g : α → Item} {indent : String}
    (h : ∀ a, f a = (g a).print indent) (l : List α) :
    String.join (l.map f) = printAll indent (l.map g) := by
  induction l with
  | nil => rfl
  | cons a l ih => rw [List.map_cons, List.map_cons, String.join_cons, printAll, ih, h]

section Printed

variable (s : Spec) (iface : String) (v : IpvsSpec)

/-- The globals are the print of their tree. -/
theorem renderGlobals_eq : renderGlobals s iface =
    "#" ++ " generated by adguard-admin-agent" ++ "\n" ++ (globalsTree s iface).print "" := by
  unfold renderGlobals globalsTree
  apply String.toList_inj.mp
  split_ifs with hon
  · simp [printAll, Item.print, setting, keywords, lineText, Word.text, instanceName]
  · simp [printAll, Item.print, setting, keywords, lineText, Word.text]

/-- The text of the check's script is the print of its tree. -/
theorem renderScript_eq : renderScript s = printAll "" (scriptTree s.checkDns) := by
  unfold renderScript scriptTree
  split_ifs with hnone
  · rfl
  · apply String.toList_inj.mp
    simp [printAll, Item.print, setting, scriptSetting, timing, keywords, lineText, Word.text,
      probeBinary]

/-- The text of the peers is the print of their tree. -/
theorem renderPeers_eq (peers : List String) :
    renderPeers peers = printAll "  " (peersTree peers) := by
  have hlines : String.join (peers.map fun p => "    " ++ p ++ "\n") =
      printAll "    " (peers.map fun p => setting [p]) := by
    refine join_map (fun p => ?_) peers
    simp [setting, keywords, Item.print, lineText, Word.text]
  unfold renderPeers peersTree
  split_ifs with hnone
  · rfl
  · rw [hlines]
    apply String.toList_inj.mp
    simp [printAll, Item.print, keywords, lineText, Word.text]

set_option maxRecDepth 4000 in
/-- The text of the instance is the print of its tree. -/
theorem renderInstance_eq : renderInstance s iface = (instanceTree s iface).print "" := by
  have htrack : (if s.checkDns = "" then "" else "  track_script \x7b\n    chk_dns\n  \x7d\n") =
      printAll "  " (trackTree s.checkDns) := by
    unfold trackTree
    split_ifs with hnone
    · rfl
    · rfl
  unfold renderInstance instanceTree
  rw [htrack, renderPeers_eq, Item.print, String.empty_append, printAll_append, printAll_append,
    printAll_append]
  apply String.toList_inj.mp
  simp [printAll, Item.print, setting, keywords, lineText, Word.text, instanceName]

set_option maxRecDepth 4000 in
/-- A backend is the print of its tree. -/
theorem renderBackend_eq (b : Backend) : renderBackend v b = (backendTree v b).print "  " := by
  unfold renderBackend backendTree
  apply String.toList_inj.mp
  simp [printAll, Item.print, setting, scriptSetting, keywords, lineText, Word.text, probeBinary]

/-- The text of a virtual server is the print of its tree. -/
theorem renderVirtualServer_eq (port : Int) (proto : String) :
    renderVirtualServer v port proto = (virtualServerTree v port proto).print "" := by
  have hbackends := join_map (renderBackend_eq v) v.backends
  unfold renderVirtualServer virtualServerTree
  rw [hbackends, Item.print, String.empty_append, printAll_append]
  apply String.toList_inj.mp
  simp [printAll, Item.print, setting, keywords, lineText, Word.text]

/-- The text of all virtual servers is the print of their trees, in order. -/
theorem renderIpvs_eq : renderIpvs v =
    printAll "" (v.ports.flatMap fun port => v.protocols.map (virtualServerTree v port)) := by
  unfold renderIpvs
  induction v.ports with
  | nil => rfl
  | cons port ports ih =>
      rw [List.flatMap_cons, List.flatMap_cons, String.join_append, printAll_append, ih,
        join_map fun proto => renderVirtualServer_eq v port proto]

/-- The configuration is the comment, the globals, the scripts and what follows them. -/
theorem render_around {scripts : List Item} (h : renderScript s = printAll "" scripts) :
    render s iface = "#" ++ " generated by adguard-admin-agent" ++ "\n" ++
      printAll "" (globalsTree s iface :: scripts ++ instanceTree s iface :: ipvsTree s) := by
  have htree : printAll "" (globalsTree s iface :: scripts ++ instanceTree s iface :: ipvsTree s) =
      (globalsTree s iface).print "" ++
        (printAll "" scripts ++ ((instanceTree s iface).print "" ++ printAll "" (ipvsTree s))) := by
    rw [List.cons_append, printAll, printAll_append, printAll]
  unfold render
  rw [renderGlobals_eq, h, renderInstance_eq, htree]
  unfold ipvsTree
  cases s.ipvs with
  | none => simp only [String.append_assoc, printAll]
  | some v =>
      dsimp only
      split_ifs with hon
      · rw [renderIpvs_eq v]
        simp only [String.append_assoc]
      · simp only [String.append_assoc, printAll]

/-- **The text is the print of the tree**, behind one line of comment. -/
theorem render_eq : render s iface =
    "#" ++ " generated by adguard-admin-agent" ++ "\n" ++ printAll "" (tree s iface) :=
  render_around s iface (renderScript_eq s)

end Printed

/-- The tree of the script is proper. -/
theorem areProper_scriptTree (checkDns : String) : areProper (scriptTree checkDns) = true := by
  unfold scriptTree
  split_ifs with hnone
  · rfl
  · rfl

/-- No line of a tree around scripts is empty. -/
theorem areProper_around (s : Spec) (iface : String) {scripts : List Item}
    (h : areProper scripts = true) :
    areProper (globalsTree s iface :: scripts ++ instanceTree s iface :: ipvsTree s) = true := by
  have hsetting : ∀ key texts, (setting (key :: texts)).proper = true := fun _ _ => rfl
  have hbackend : ∀ v b, (backendTree v b).proper = true := fun _ _ => rfl
  have hserver : ∀ v port proto, (virtualServerTree v port proto).proper = true := by
    intro v port proto
    have hbackends : (v.backends.map (backendTree v)).all Item.proper = true := by
      simp [hbackend]
    simp [virtualServerTree, Item.proper, areProper_eq_all, keywords, hsetting, hbackends]
  have hglobals : (globalsTree s iface).proper = true := by
    unfold globalsTree
    split_ifs with hon
    · rfl
    · rfl
  rw [areProper_eq_all] at h ⊢
  have hpeers : (peersTree s.peers).all Item.proper = true := by
    unfold peersTree
    split_ifs with hnone
    · rfl
    · simp [Item.proper, areProper_eq_all, keywords, hsetting]
  have htrack : (trackTree s.checkDns).all Item.proper = true := by
    unfold trackTree
    split_ifs with hnone
    · rfl
    · rfl
  have hinstance : (instanceTree s iface).proper = true := by
    simp [instanceTree, Item.proper, areProper_eq_all, keywords, hsetting, hpeers, htrack]
  have hipvs : (ipvsTree s).all Item.proper = true := by
    unfold ipvsTree
    split
    · split_ifs with hon
      · simp [hserver]
      · rfl
    · rfl
  simp [hglobals, h, hinstance, hipvs]

/-! ## The words of the tree -/

section Words

variable {s : Spec} {iface : String} {v : IpvsSpec}

/-- A setting is readable exactly when its texts are. -/
theorem readable_setting {texts : List String} :
    (∀ w ∈ (setting texts).words, w.Readable) ↔ ∀ text ∈ texts, (Word.plain text).Readable :=
  List.forall_mem_map

theorem readable_keywords {texts : List String} :
    (∀ w ∈ keywords texts, w.Readable) ↔ ∀ text ∈ texts, (Word.plain text).Readable :=
  List.forall_mem_map

/-- Characters between the hyphen and the `z` are plain, but for the backslash. -/
theorem isPlain_of_range {c : Char} (h : 45 ≤ c.toNat ∧ c.toNat ≤ 122) (hback : c ≠ '\\') :
    isPlain c = true := by
  have hne : ∀ d : Char, d.toNat < 45 ∨ 122 < d.toNat → c ≠ d := by
    rintro d hd rfl
    omega
  refine isPlain_iff.mpr ⟨?_, hne _ (by decide), hne _ (by decide), hne _ (by decide),
    hne _ (by decide), hne _ (by decide), hne _ (by decide), hback⟩
  simp only [isBlank, List.mem_cons, List.not_mem_nil, or_false, decide_eq_false_iff_not, not_or]
  exact ⟨hne _ (by decide), hne _ (by decide), hne _ (by decide), hne _ (by decide),
    hne _ (by decide)⟩

/-- The characters of address literals are plain. -/
theorem isPlain_of_literal {c : Char} (h : isLiteralChar c = true) : isPlain c = true := by
  refine isPlain_of_range (Validators.isInertChar_range (Validators.inert_of_literal h)) ?_
  rintro rfl
  cases h

/-- The characters of names, and the colon, are plain. -/
theorem isPlain_of_nameChar {c : Char} (h : isNameChar c = true ∨ c = ':') : isPlain c = true := by
  rcases h with h | rfl
  · simp only [isNameChar, Bool.or_eq_true, decide_eq_true_eq] at h
    rcases h with ((halpha | rfl) | rfl) | rfl
    · have hrange := toNat_of_isAlphanum halpha
      refine isPlain_of_range (by omega) ?_
      rintro rfl
      cases halpha
    · decide
    · decide
    · decide
  · decide

/-- An address is readable as it is printed. -/
theorem readable_ipString (ip : Ip) : (Word.plain (ipString ip)).Readable := by
  refine ⟨fun hempty => ?_, fun c hc => isPlain_of_literal (ipString_chars ip c hc)⟩
  have hparse := parseAddr_ipString ip
  rw [hempty] at hparse
  cases hparse

/-- A text that parses as an address is readable. -/
theorem readable_of_parseIP {text : String} {ip : Ip} (h : parseIP text = some ip) :
    (Word.plain text).Readable := by
  refine ⟨?_, fun c hc => isPlain_of_literal (parseIP_chars h c hc)⟩
  rintro rfl
  cases h

theorem isPlain_of_digit {c : Char} (h : (decDigit? c).isSome = true) : isPlain c = true :=
  isPlain_of_literal (by simp [isLiteralChar, hexDigit?_of_decDigit? h])

/-- A text that parses as a prefix is readable. -/
theorem readable_of_parseCIDR {text : String} {ip : Ip} {n : Nat}
    (h : parseCIDR text = some (ip, n)) : (Word.plain text).Readable := by
  obtain ⟨⟨addr, mask⟩, hcut, h⟩ := Option.bind_eq_some_iff.mp h
  obtain ⟨raw, hraw, h⟩ := Option.bind_eq_some_iff.mp h
  obtain ⟨bits, hbits, -⟩ := Option.bind_eq_some_iff.mp h
  have hchars : text.toList = addr ++ '/' :: mask := (cut?_eq_some.mp hcut).1
  have hmask : ∀ c ∈ mask, (decDigit? c).isSome = true := by
    unfold decimal? at hbits
    split at hbits
    · cases hbits
    · exact number?_isSome hbits
  refine ⟨?_, ?_⟩
  · rintro rfl
    simp at hchars
  · intro c hc
    rw [hchars, List.mem_append, List.mem_cons] at hc
    rcases hc with hc | rfl | hc
    · exact isPlain_of_literal (parseAddr_chars hraw c hc)
    · decide
    · exact isPlain_of_digit (hmask c hc)

/-- A text of an allowed class is a readable word. -/
theorem readable_of_matchesClass {p : Char → Bool} {most : Nat} {text : String}
    (hp : ∀ c, p c = true → isNameChar c = true ∨ c = ':') (h : matchesClass p most text = true) :
    (Word.plain text).Readable := by
  simp only [matchesClass, Bool.and_eq_true, decide_eq_true_eq, List.all_eq_true] at h
  obtain ⟨⟨hne, -⟩, hall⟩ := h
  refine ⟨?_, fun c hc => isPlain_of_nameChar (hp c (hall c hc))⟩
  rintro rfl
  exact hne rfl

/-- Numbers are written with digits. -/
theorem digits_of_repr {n : Nat} : ∀ c ∈ n.repr.toList, (decDigit? c).isSome = true := by
  have hchars : n.repr.toList = Nat.toDigits 10 n := String.toList_ofList
  rw [hchars]
  exact fun c hc => decDigit?_of_mem_toDigits hc

/-- A printed integer is not empty, and has only digits and a minus sign. -/
theorem toString_chars (n : Int) :
    toString n ≠ "" ∧ ∀ c ∈ (toString n).toList, c = '-' ∨ (decDigit? c).isSome = true := by
  cases n with
  | ofNat m =>
      refine ⟨fun hempty => ?_, fun c hc => Or.inr (digits_of_repr c hc)⟩
      have hchars : (toString (Int.ofNat m)).toList = Nat.toDigits 10 m := String.toList_ofList
      rw [hempty] at hchars
      exact Nat.toDigits_ne_nil hchars.symm
  | negSucc m =>
      have hchars : (toString (Int.negSucc m)).toList = '-' :: (Nat.repr (m + 1)).toList := by
        have htext : toString (Int.negSucc m) = "-" ++ Nat.repr (m + 1) := rfl
        rw [htext, String.toList_append]
        rfl
      refine ⟨fun hempty => ?_, ?_⟩
      · rw [hempty] at hchars
        cases hchars
      · rw [hchars]
        exact List.forall_mem_cons.mpr ⟨Or.inl rfl, fun c hc => Or.inr (digits_of_repr c hc)⟩

/-- A number is readable. -/
theorem readable_toString (n : Int) : (Word.plain (toString n)).Readable := by
  refine ⟨(toString_chars n).1, fun c hc => ?_⟩
  rcases (toString_chars n).2 c hc with rfl | hdigit
  · decide
  · exact isPlain_of_digit hdigit

/-- The name of an instance is readable. -/
theorem readable_instanceName (s : Spec) : (Word.plain (instanceName s)).Readable := by
  refine ⟨fun hempty => ?_, fun c hc => ?_⟩
  · have hchars := congrArg String.toList hempty
    simp [instanceName] at hchars
  · rw [instanceName, String.toList_append, List.mem_append] at hc
    rcases hc with hc | hc
    · have hkey : (Word.plain "adguard_admin_").Readable := by decide
      exact hkey.2 c hc
    · exact (readable_toString s.routerId).2 c hc

/-- The program in front of the target has no character of its own to escape. -/
theorem readable_script {target : String} :
    (Word.quoted (probeBinary ++ " probe-dns " ++ target)).Readable ↔
      (Word.quoted target).Readable := by
  have hprogram : (Word.quoted (probeBinary ++ " probe-dns ")).Readable := by decide
  rw [readable_quoted_append, and_iff_right hprogram]

/-- A script is readable exactly when its key and its target are. -/
theorem readable_scriptSetting {key target : String} :
    (∀ w ∈ (scriptSetting key target).words, w.Readable) ↔
      (Word.plain key).Readable ∧ (Word.quoted target).Readable := by
  have hwords : (scriptSetting key target).words =
      [.plain key, .quoted (probeBinary ++ " probe-dns " ++ target)] := rfl
  rw [hwords, List.forall_mem_cons, List.forall_mem_singleton, readable_script]

theorem reads_timing : Reads timing := by decide

/-- The tree of the script is read back exactly when its target is readable. -/
theorem reads_scriptTree {checkDns : String} :
    Reads (scriptTree checkDns) ↔ (Word.quoted checkDns).Readable := by
  unfold scriptTree
  split_ifs with hnone
  · subst hnone
    exact iff_of_true reads_nil (by decide)
  · have hkeys : (∀ text ∈ ["vrrp_script", "chk_dns"], (Word.plain text).Readable) ∧
        (Word.plain "script").Readable := by decide
    rw [reads_cons, readable_block, readable_keywords, and_iff_right hkeys.1, reads_cons,
      readable_scriptSetting, and_iff_right hkeys.2, and_iff_left reads_timing,
      and_iff_left reads_nil]

/-- What an instance tracks is read back. -/
theorem reads_trackTree (checkDns : String) : Reads (trackTree checkDns) := by
  unfold trackTree
  split_ifs with hnone
  · exact reads_nil
  · decide

/-- The globals are readable exactly when their interface is, which is written for IPVS only. -/
theorem readable_globalsTree : (∀ w ∈ (globalsTree s iface).words, w.Readable) ↔
    (s.ipvsOn = true → (Word.plain iface).Readable) := by
  have hfixed : (∀ text ∈ ["global_defs"], (Word.plain text).Readable) ∧
      (∀ text ∈ ["enable_script_security"], (Word.plain text).Readable) ∧
      ∀ text ∈ ["script_user", "root"], (Word.plain text).Readable := by decide
  rw [globalsTree, readable_block, readable_keywords, and_iff_right hfixed.1, reads_append,
    reads_cons, readable_setting, and_iff_right hfixed.2.1, reads_cons, readable_setting,
    and_iff_right hfixed.2.2, and_iff_right reads_nil]
  split_ifs with hon
  · have hkeys : (Word.plain "lvs_sync_daemon").Readable ∧ (Word.plain "id").Readable := by decide
    rw [reads_cons, readable_setting, and_iff_left reads_nil]
    simp only [List.forall_mem_cons, hkeys, readable_instanceName, readable_toString, hon,
      forall_const, true_and, and_true, List.not_mem_nil, false_implies]
  · exact iff_of_true reads_nil fun habsent => absurd habsent hon

/-- Peers are read back exactly when each is readable. -/
theorem reads_peersTree {peers : List String} :
    Reads (peersTree peers) ↔ ∀ p ∈ peers, (Word.plain p).Readable := by
  unfold peersTree
  split_ifs with hnone
  · subst hnone
    exact iff_of_true reads_nil (List.forall_mem_nil _)
  · have hkey : ∀ text ∈ ["unicast_peer"], (Word.plain text).Readable := by decide
    rw [reads_cons, readable_block, readable_keywords, and_iff_right hkey, and_iff_left reads_nil,
      reads_iff, List.forall_mem_map]
    simp only [readable_setting, List.forall_mem_singleton]

/-- The texts of the instance, but for the numbers. -/
structure InstanceReadable (s : Spec) (iface : String) : Prop where
  interface : (Word.plain iface).Readable
  authPass : (Word.plain s.authPass).Readable
  srcIp : (Word.plain s.srcIp).Readable
  peers : ∀ p ∈ s.peers, (Word.plain p).Readable
  vip : (Word.plain s.vip).Readable

/-- An instance is readable exactly when the texts it is made of are. -/
theorem readable_instanceTree :
    (∀ w ∈ (instanceTree s iface).words, w.Readable) ↔ InstanceReadable s iface := by
  have hkeys : (Word.plain "vrrp_instance").Readable ∧ (Word.plain "interface").Readable ∧
      (Word.plain "virtual_router_id").Readable ∧ (Word.plain "priority").Readable ∧
      (Word.plain "authentication").Readable ∧ (Word.plain "auth_pass").Readable ∧
      (Word.plain "unicast_src_ip").Readable ∧ (Word.plain "virtual_ipaddress").Readable := by
    decide
  have hfixed : (Word.plain "state").Readable ∧ (Word.plain "BACKUP").Readable ∧
      (Word.plain "advert_int").Readable ∧ (Word.plain "1").Readable ∧
      (Word.plain "auth_type").Readable ∧ (Word.plain "PASS").Readable := by decide
  rw [instanceTree, readable_block, readable_keywords, reads_append, reads_append, reads_append,
    reads_peersTree, and_iff_left (reads_trackTree s.checkDns)]
  simp only [reads_cons, readable_block, readable_keywords, readable_setting, reads_nil,
    List.forall_mem_cons, List.not_mem_nil, false_implies, implies_true, hkeys, hfixed,
    readable_instanceName, readable_toString, and_true, true_and]
  constructor
  · rintro ⟨⟨⟨hiface, hauth, hsrc⟩, hpeers⟩, hvip⟩
    exact ⟨hiface, hauth, hsrc, hpeers, hvip⟩
  · rintro ⟨hiface, hauth, hsrc, hpeers, hvip⟩
    exact ⟨⟨⟨hiface, hauth, hsrc⟩, hpeers⟩, hvip⟩

/-- The texts of the kernel balancer. -/
structure IpvsReadable (v : IpvsSpec) : Prop where
  vip : (Word.plain v.vip).Readable
  algo : (Word.plain v.algo).Readable
  protocols : ∀ proto ∈ v.protocols, (Word.plain proto.toUpper).Readable
  backends : ∀ b ∈ v.backends, ∃ ip, b.address = ipString ip

/-- An address with a port is readable in quotes. -/
theorem readable_joinHostPort (ip : Ip) (n : Int) :
    (Word.quoted (joinHostPort (ipString ip) (toString n))).Readable := by
  have hplain : ∀ {text : String}, (Word.plain text).Readable → (Word.quoted text).Readable := by
    intro text h c hc
    obtain ⟨-, hnewline, -, -, hquote, -, -, hback⟩ := isPlain_iff.mp (h.2 c hc)
    exact ⟨hnewline, hquote, hback⟩
  have hmarks : (Word.quoted "[").Readable ∧ (Word.quoted "]:").Readable ∧
      (Word.quoted ":").Readable := by decide
  unfold joinHostPort
  split_ifs with hcolon
  · simp only [readable_quoted_append, hmarks, hplain (readable_ipString ip),
      hplain (readable_toString n), and_self]
  · simp only [readable_quoted_append, hmarks, hplain (readable_ipString ip),
      hplain (readable_toString n), and_self]

/-- A backend whose address is a literal is readable. -/
theorem readable_backendTree {b : Backend} (h : ∃ ip, b.address = ipString ip) :
    ∀ w ∈ (backendTree v b).words, w.Readable := by
  obtain ⟨ip, hip⟩ := h
  have hkeys : (Word.plain "real_server").Readable ∧ (Word.plain "weight").Readable ∧
      (Word.plain "inhibit_on_failure").Readable ∧ (Word.plain "MISC_CHECK").Readable ∧
      (Word.plain "misc_path").Readable ∧ (Word.plain "misc_timeout").Readable ∧
      (Word.plain "retry").Readable ∧ (Word.plain "delay_before_retry").Readable ∧
      (Word.plain "1").Readable := by decide
  rw [backendTree, readable_block, hip]
  simp only [readable_keywords, reads_cons, readable_block, readable_setting,
    readable_scriptSetting, reads_nil, List.forall_mem_cons, List.not_mem_nil, false_implies,
    implies_true, hkeys, readable_ipString, readable_toString, readable_joinHostPort, and_self]

/-- A virtual server of a readable spec is. -/
theorem readable_virtualServerTree (h : IpvsReadable v) (port : Int) {proto : String}
    (hproto : proto ∈ v.protocols) :
    ∀ w ∈ (virtualServerTree v port proto).words, w.Readable := by
  have hkeys : (Word.plain "virtual_server").Readable ∧ (Word.plain "delay_loop").Readable ∧
      (Word.plain "lvs_sched").Readable ∧ (Word.plain "lvs_method").Readable ∧
      (Word.plain "DR").Readable ∧ (Word.plain "protocol").Readable := by decide
  have hbackends : Reads (v.backends.map (backendTree v)) := by
    rw [reads_iff, List.forall_mem_map]
    exact fun b hb => readable_backendTree (h.backends b hb)
  rw [virtualServerTree, readable_block, reads_append, and_iff_left hbackends]
  simp only [readable_keywords, reads_cons, readable_setting, reads_nil, List.forall_mem_cons,
    List.not_mem_nil, false_implies, implies_true, hkeys, h.vip, h.algo, h.protocols proto hproto,
    readable_toString, and_self]

/-- The trees of the kernel's balancer are read back. -/
theorem reads_ipvsTree (h : ∀ v, s.ipvs = some v → s.ipvsOn = true → IpvsReadable v) :
    Reads (ipvsTree s) := by
  unfold ipvsTree
  split
  · next v hv =>
      split_ifs with hon
      · rw [reads_iff]
        intro item hitem
        obtain ⟨port, -, hmem⟩ := List.mem_flatMap.mp hitem
        obtain ⟨proto, hproto, rfl⟩ := List.mem_map.mp hmem
        exact readable_virtualServerTree (h v hv hon) port hproto
      · exact reads_nil
  · exact reads_nil

/-- The tree is read when the texts of the instance and the scripts are. -/
theorem reads_around_iff (h : ∀ v, s.ipvs = some v → s.ipvsOn = true → IpvsReadable v)
    {scripts : List Item} :
    Reads (globalsTree s iface :: scripts ++ instanceTree s iface :: ipvsTree s) ↔
      InstanceReadable s iface ∧ Reads scripts := by
  rw [List.cons_append, reads_cons, reads_append, reads_cons, readable_globalsTree,
    readable_instanceTree, and_iff_left (reads_ipvsTree h)]
  constructor
  · rintro ⟨-, hscripts, hinstance⟩
    exact ⟨hinstance, hscripts⟩
  · rintro ⟨hinstance, hscripts⟩
    exact ⟨fun _ => hinstance.interface, hscripts, hinstance⟩

end Words

end AdguardAdmin.Keepalived
