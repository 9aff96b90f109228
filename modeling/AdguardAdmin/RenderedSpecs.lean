import Mathlib.Data.Bool.AllAny
import AdguardAdmin.KeepalivedTree
/-!
# Specs that keepalived reads as they are

Each text of a spec is checked before it is written into the configuration, but for the target of
the DNS check: any text with a host and a port is one.  Between the quotes of the script line a
quote ends the string, and what is behind it is read as configuration.

* `reads_back_iff` — an accepted spec is read as its tree exactly if it is enabled and the target
  of the check and an interface that the host names have no character that ends a word early;
* `own_script_is_read` — a target that brings a script of its own has it read as one.
-/

namespace AdguardAdmin.Keepalived

open GoText IpLiterals BlockText

/-! ## What the decoder has checked -/

/-- The texts of an accepted spec, but for the target of the check and the kernel balancer. -/
structure Checked (spec : Spec) : Prop where
  vip : ∃ ip n, parseCIDR spec.vip = some (ip, n)
  interface : spec.interface ≠ "" → isIface spec.interface = true
  authPass : isAuth spec.authPass = true
  srcIp : ∃ ip, parseIP spec.srcIp = some ip
  peers : ∀ p ∈ spec.peers, ∃ ip, parseIP p = some ip

/-- A peer that is taken is an address, and stays as it is. -/
theorem decodePeer_ok {p q : String} :
    decodePeer p = .ok q ↔ (∃ ip, parseIP p = some ip) ∧ id p = q := by
  simp only [decodePeer, bind_ok, orFail_ok, pure_ok, id_eq, exists_and_right]

/-- A VIP that is taken is a prefix. -/
theorem decodeVip_ok {vip : String} {ip : Ip} (h : decodeVip vip = .ok ip) :
    ∃ n, parseCIDR vip = some (ip, n) := by
  obtain ⟨⟨addr, n⟩, hread, h⟩ := bind_ok.mp h
  obtain ⟨_, -, h⟩ := bind_ok.mp h
  obtain rfl := pure_ok.mp h
  exact ⟨n, orFail_ok.mp hread⟩

/-- What was enabled has been checked. -/
theorem decodeEnabled_checked {i : Input} {spec : Spec} (h : decodeEnabled i = .ok spec) :
    Checked spec := by
  obtain ⟨vipIp, hvip, h⟩ := bind_ok.mp h
  obtain ⟨_, hiface, h⟩ := bind_ok.mp h
  obtain ⟨_, -, h⟩ := bind_ok.mp h
  obtain ⟨_, -, h⟩ := bind_ok.mp h
  obtain ⟨_, hauth, h⟩ := bind_ok.mp h
  obtain ⟨peers, hpeers, h⟩ := bind_ok.mp h
  obtain ⟨_, hsrc, h⟩ := bind_ok.mp h
  obtain ⟨_, -, h⟩ := bind_ok.mp h
  obtain ⟨_, -, h⟩ := bind_ok.mp h
  obtain rfl := pure_ok.mp h
  have hbad : ¬(i.interface ≠ "" ∧ isIface i.interface = false) := failIf_ok.mp hiface
  obtain ⟨hall, hmap⟩ := (mapM_eq_ok fun _ _ => decodePeer_ok).mp hpeers
  obtain ⟨n, hcidr⟩ := decodeVip_ok hvip
  refine ⟨⟨vipIp, n, hcidr⟩, fun hne => ?_, by simpa using failIf_ok.mp hauth,
    ⟨_, orFail_ok.mp hsrc⟩, ?_⟩
  · by_contra hnot
    exact hbad ⟨hne, by simpa using hnot⟩
  · rw [← hmap, List.map_id]
    exact hall

/-- A spec that was decoded and is enabled is checked. -/
theorem decode_checked {raw : Json Int} {spec : Spec} (h : decode raw = .ok spec)
    (hon : spec.enabled = true) : Checked spec := by
  obtain ⟨i, -, hspec⟩ := bind_ok.mp h
  split at hspec
  · exact decodeEnabled_checked hspec
  · obtain rfl := pure_ok.mp hspec
    cases hon

/-- A disabled spec is accepted with no password. -/
theorem decode_disabled {raw : Json Int} {spec : Spec} (h : decode raw = .ok spec)
    (hoff : ¬ spec.enabled = true) : spec = disabledSpec := by
  obtain ⟨i, -, hspec⟩ := bind_ok.mp h
  split at hspec
  · exact absurd (decodeEnabled_ok hspec).1 hoff
  · exact (pure_ok.mp hspec).symm

/-- A scheduler that is taken is readable. -/
theorem decodeAlgo_readable {algo text : String} (h : decodeAlgo algo = .ok text) :
    (Word.plain text).Readable := by
  obtain ⟨_, hcheck, h⟩ := bind_ok.mp h
  obtain rfl := pure_ok.mp h
  have hknown : ∀ text ∈ ["rr", "wrr", "lc", "wlc", "sh"], (Word.plain text).Readable := by decide
  have hcases : ¬(algo ≠ "" ∧ algo ∉ ["rr", "wrr", "lc", "wlc", "sh"]) := failIf_ok.mp hcheck
  split_ifs with hempty
  · decide
  · exact hknown algo (not_not.mp fun hmem => hcases ⟨hempty, hmem⟩)

/-- Protocols that are taken are the two that are known. -/
theorem decodeProtocols_known {protocols checked : List String}
    (h : decodeProtocols protocols = .ok checked) : ∀ pr ∈ checked, pr = "udp" ∨ pr = "tcp" := by
  obtain ⟨lowered, hlowered, h⟩ := bind_ok.mp h
  obtain rfl := pure_ok.mp h
  split_ifs with hempty
  · simp
  · have hone : ∀ text pr : String, (do
        let pr := text.toLower
        failIf (¬(pr = "udp" ∨ pr = "tcp")) "ipvs.protocols: %q must be udp or tcp" [pr]
        return pr : Except Error String) = .ok pr ↔
          (text.toLower = "udp" ∨ text.toLower = "tcp") ∧ text.toLower = pr := by
      intro text pr
      simp only [bind_ok, failIf_ok, pure_ok, not_not, exists_const]
    obtain ⟨hall, hmap⟩ := (mapM_eq_ok hone).mp hlowered
    rw [← hmap, List.forall_mem_map]
    exact hall

/-- The kernel's balancer that is taken is readable. -/
theorem decodeIpvs_readable {vipIp : Ip} {i : IpvsInput} {v : IpvsSpec}
    (h : decodeIpvs vipIp i = .ok v) (hon : v.enabled = true) : IpvsReadable v := by
  unfold decodeIpvs at h
  split at h
  · obtain ⟨ip, -, h⟩ := bind_ok.mp h
    obtain ⟨_, -, h⟩ := bind_ok.mp h
    obtain ⟨_, -, h⟩ := bind_ok.mp h
    obtain ⟨protocols, hprotocols, h⟩ := bind_ok.mp h
    obtain ⟨algo, halgo, h⟩ := bind_ok.mp h
    obtain ⟨backends, hbackends, h⟩ := bind_ok.mp h
    obtain ⟨_, -, h⟩ := bind_ok.mp h
    obtain rfl := pure_ok.mp h
    refine ⟨readable_ipString ip, decodeAlgo_readable halgo, fun pr hpr => ?_, fun b hb => ?_⟩
    · rcases decodeProtocols_known hprotocols pr hpr with rfl | rfl
      · decide +kernel
      · decide +kernel
    · obtain ⟨e, haddress, -⟩ := Ipvs.decodeBackends_canonical hbackends b hb
      exact ⟨e.ip, haddress⟩
  · obtain rfl := Except.ok.inj h
    cases hon

/-- The kernel's balancer of a decoded spec is readable. -/
theorem decode_ipvs_readable {raw : Json Int} {spec : Spec} {v : IpvsSpec}
    (h : decode raw = .ok spec) (hv : spec.ipvs = some v) (hon : spec.ipvsOn = true) :
    IpvsReadable v := by
  obtain ⟨vipIp, fields, i, -, -, hchecked⟩ := decode_ipvs h hv
  refine decodeIpvs_readable hchecked ?_
  rw [Spec.ipvsOn, hv, Option.any_some, Bool.and_eq_true] at hon
  exact hon.2

/-! ## Reading the text of a spec -/

section Reading

variable {raw : Json Int} {spec : Spec} {iface : String}

/-- A checked instance is readable, if its interface is. -/
theorem instanceReadable_of_checked (h : Checked spec) (hiface : (Word.plain iface).Readable) :
    InstanceReadable spec iface := by
  obtain ⟨vipIp, n, hvip⟩ := h.vip
  obtain ⟨srcIp, hsrc⟩ := h.srcIp
  refine ⟨hiface, readable_of_matchesClass (fun _ hc => Or.inl hc) h.authPass,
    readable_of_parseIP hsrc, fun p hp => ?_, readable_of_parseCIDR hvip⟩
  obtain ⟨ip, hip⟩ := h.peers p hp
  exact readable_of_parseIP hip

/-- An interface that the spec names is one word. -/
theorem readable_interface (h : Checked spec) (hnamed : spec.interface ≠ "") :
    (Word.plain spec.interface).Readable :=
  readable_of_matchesClass (fun c hc => by simpa using hc) (h.interface hnamed)

/-- The text is read as the tree, with whatever the script is read as. -/
theorem parse_around {scripts : List Item} (h : renderScript spec = printAll "" scripts)
    (hproper : areProper scripts = true) :
    parse (render spec iface) =
        some (globalsTree spec iface :: scripts ++ instanceTree spec iface :: ipvsTree spec) ↔
      Reads (globalsTree spec iface :: scripts ++ instanceTree spec iface :: ipvsTree spec) := by
  rw [render_around spec iface h, parse_comment (by decide),
    parse_printAll_iff (areProper_around spec iface hproper)]

/-- **A spec is read as its tree**, exactly if it is enabled, an interface that only the host names
is one word, and the target of the check has no quote, no backslash and no line break. -/
theorem reads_back_iff (h : decode raw = .ok spec)
    (hiface : spec.interface ≠ "" → iface = spec.interface) :
    parse (render spec iface) = some (tree spec iface) ↔
      spec.enabled = true ∧
        (spec.interface = "" → iface ≠ "" ∧ ∀ c ∈ iface.toList, isPlain c = true) ∧
        ∀ c ∈ spec.checkDns.toList, c ≠ '\n' ∧ c ≠ '"' ∧ c ≠ '\\' := by
  have hipvs : ∀ v, spec.ipvs = some v → spec.ipvsOn = true → IpvsReadable v :=
    fun v hv hon => decode_ipvs_readable h hv hon
  rw [tree, parse_around (renderScript_eq spec) (areProper_scriptTree spec.checkDns),
    reads_around_iff hipvs, reads_scriptTree]
  constructor
  · rintro ⟨hinstance, hcheck⟩
    refine ⟨?_, fun _ => hinstance.interface, hcheck⟩
    by_contra hoff
    obtain rfl := decode_disabled h hoff
    exact hinstance.authPass.1 rfl
  · rintro ⟨hon, hhost, hcheck⟩
    have hchecked := decode_checked h hon
    refine ⟨instanceReadable_of_checked hchecked ?_, hcheck⟩
    by_cases hnamed : spec.interface = ""
    · exact hhost hnamed
    · rw [hiface hnamed]
      exact readable_interface hchecked hnamed

/-! ### Targets that bring a script -/

def ownScript (name command : String) : Item :=
  .block (keywords ["vrrp_script", name]) (.line [.plain "script", .quoted command] :: timing)

/-- The scripts that are read from a target with a script of its own. -/
def withOwnScript (target name command : String) : List Item :=
  [.block (keywords ["vrrp_script", "chk_dns"]) [scriptSetting "script" target],
    ownScript name command]

/-- A target with a quote in it ends its script and starts another. -/
theorem renderScript_withOwnScript {target name command : String}
    (h : spec.checkDns =
      target ++ "\"\n\x7d\nvrrp_script " ++ name ++ " \x7b\n  script \"" ++ command) :
    renderScript spec = printAll "" (withOwnScript target name command) := by
  have hset : spec.checkDns ≠ "" := by
    intro hempty
    have hchars := congrArg String.toList (h.symm.trans hempty)
    simp at hchars
  unfold renderScript withOwnScript ownScript
  rw [if_neg hset, h]
  apply String.toList_inj.mp
  simp [printAll, Item.print, setting, scriptSetting, timing, keywords, lineText, Word.text,
    probeBinary]

/-- **A target can bring a script**, with any name and any command. -/
theorem own_script_is_read (h : decode raw = .ok spec) (hon : spec.enabled = true)
    (hiface : (Word.plain iface).Readable) {target name command : String}
    (htarget : (Word.quoted target).Readable) (hname : (Word.plain name).Readable)
    (hcommand : (Word.quoted command).Readable)
    (hcheck : spec.checkDns =
      target ++ "\"\n\x7d\nvrrp_script " ++ name ++ " \x7b\n  script \"" ++ command) :
    parse (render spec iface) = some (globalsTree spec iface ::
      withOwnScript target name command ++ instanceTree spec iface :: ipvsTree spec) := by
  have hkeys : (∀ text ∈ ["vrrp_script", "chk_dns"], (Word.plain text).Readable) ∧
      (Word.plain "vrrp_script").Readable ∧ (Word.plain "script").Readable := by decide
  have hscripts : Reads (withOwnScript target name command) := by
    rw [withOwnScript, reads_cons, readable_block, readable_keywords, and_iff_right hkeys.1,
      reads_cons, readable_scriptSetting, and_iff_right hkeys.2.2, and_iff_left reads_nil,
      and_iff_right htarget, reads_cons, and_iff_left reads_nil, ownScript, readable_block,
      readable_keywords, reads_cons, and_iff_left reads_timing]
    refine ⟨?_, ?_⟩
    · exact List.forall_mem_cons.mpr ⟨hkeys.2.1, List.forall_mem_singleton.mpr hname⟩
    · exact List.forall_mem_cons.mpr ⟨hkeys.2.2, List.forall_mem_singleton.mpr hcommand⟩
  refine (parse_around (renderScript_withOwnScript hcheck) rfl).mpr ?_
  rw [reads_around_iff fun v hv hon => decode_ipvs_readable h hv hon]
  exact ⟨instanceReadable_of_checked (decode_checked h hon) hiface, hscripts⟩

end Reading

/-! ### One spec, two targets -/

/-- A spec with a target for the check. -/
def checkedJson (target : String) : Json Int :=
  .obj [("vip", .str "10.0.0.53/24"), ("interface", .str "eth0"), ("router_id", .num 53),
    ("auth_pass", .str "secret"), ("peers", .strs ["10.0.0.12"]), ("src_ip", .str "10.0.0.11"),
    ("check_dns", .str target)]

def checkedSpec (target : String) : Spec :=
  ⟨true, "10.0.0.53/24", "eth0", 53, 100, "secret", ["10.0.0.12"], "10.0.0.11", target, none⟩

/-- The agent takes the spec of one backend. -/
theorem decode_checkedJson : decode (checkedJson "10.0.0.11:53") =
    .ok (checkedSpec "10.0.0.11:53") := by decide +kernel

/-- The rendered spec of one backend is read back. -/
theorem ordinary_spec_reads_back :
    parse (render (checkedSpec "10.0.0.11:53") "eth0") =
      some (tree (checkedSpec "10.0.0.11:53") "eth0") :=
  (reads_back_iff decode_checkedJson fun _ => rfl).mpr
    ⟨rfl, fun hempty => absurd hempty (by decide), List.all_iff_forall_prop.mp (by decide)⟩

def owningTarget : String :=
  "10.0.0.11:53\"\n\x7d\nvrrp_script owned \x7b\n  script \"/bin/touch /root/owned"

theorem decode_owningTarget : decode (checkedJson owningTarget) =
    .ok (checkedSpec owningTarget) := by decide +kernel

/-- The target passes as host and port, and keepalived reads a second script from it. -/
theorem target_is_a_script : ∃ raw spec, decode raw = .ok spec ∧
    parse (render spec spec.interface) ≠ some (tree spec spec.interface) ∧
    parse (render spec spec.interface) = some (globalsTree spec spec.interface ::
      withOwnScript "10.0.0.11:53" "owned" "/bin/touch /root/owned" ++
        instanceTree spec spec.interface :: ipvsTree spec) := by
  have hcheck : (checkedSpec owningTarget).checkDns = "10.0.0.11:53" ++ "\"\n\x7d\nvrrp_script " ++
      "owned" ++ " \x7b\n  script \"" ++ "/bin/touch /root/owned" := by decide
  have hread : parse (render (checkedSpec owningTarget) "eth0") =
      some (globalsTree (checkedSpec owningTarget) "eth0" ::
        withOwnScript "10.0.0.11:53" "owned" "/bin/touch /root/owned" ++
          instanceTree (checkedSpec owningTarget) "eth0" ::
            ipvsTree (checkedSpec owningTarget)) :=
    own_script_is_read decode_owningTarget rfl (by decide) (by decide) (by decide) (by decide)
      hcheck
  refine ⟨checkedJson owningTarget, checkedSpec owningTarget, decode_owningTarget, ?_, hread⟩
  intro hsame
  have hlength := congrArg List.length (Option.some.inj (hread.symm.trans hsame))
  cases hlength

end AdguardAdmin.Keepalived
