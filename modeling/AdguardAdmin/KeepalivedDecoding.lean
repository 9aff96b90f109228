import AdguardAdmin.BackendNames
/-!
# Decoding the keepalived spec of a balancer

What the agent's `Decode` asks of the spec `keepalivedSpec` builds, field by field.
A disabled spec is always accepted; the main result is `accepts_keepalivedSpec`.
-/

namespace AdguardAdmin.Keepalived

open GoText

/-! ## The kernel balancer -/

/-- What the decoder wants of one real server. -/
structure BackendFits (b : Backend) : Prop where
  name : isName b.name = true
  address : ∃ ip, parseIP b.address = some ip
  port : IsPort b.port
  weight : 0 ≤ b.weight ∧ b.weight ≤ 65535

/-- Backends are taken when each fits and their names are new. -/
theorem accepts_decodeBackends {seen : List String} {bs : List Backend} :
    Accepts (decodeBackends seen bs) ↔
      (∀ b ∈ bs, BackendFits b) ∧ (bs.map (·.name)).Nodup ∧ ∀ b ∈ bs, b.name ∉ seen := by
  induction bs generalizing seen with
  | nil => simp [decodeBackends]
  | cons b bs ih =>
      have hweight : ¬(b.weight < 0 ∨ 65535 < b.weight) ↔ 0 ≤ b.weight ∧ b.weight ≤ 65535 := by
        omega
      unfold decodeBackends
      rw [accepts_bind_iff (q := b.name ∉ seen ∧ (∃ ip, parseIP b.address = some ip) ∧
        IsPort b.port ∧ (0 ≤ b.weight ∧ b.weight ≤ 65535) ∧
        Accepts (decodeBackends (b.name :: seen) bs)), newNames_cons, ih, accepts_failIf]
      · constructor
        · rintro ⟨hname, hnew, haddress, hp, hw, hrest⟩
          exact ⟨⟨by simpa using hname, haddress, hp, hw⟩, hnew, hrest⟩
        · rintro ⟨⟨hname, haddress, hp, hw⟩, hnew, hrest⟩
          exact ⟨by simp [hname], hnew, haddress, hp, hw, hrest⟩
      · intro _ _
        rw [accepts_bind_iff (q := (∃ ip, parseIP b.address = some ip) ∧ IsPort b.port ∧
          (0 ≤ b.weight ∧ b.weight ≤ 65535) ∧ Accepts (decodeBackends (b.name :: seen) bs)),
          accepts_failIf]
        intro _ _
        rw [accepts_bind_iff (q := IsPort b.port ∧ (0 ≤ b.weight ∧ b.weight ≤ 65535) ∧
          Accepts (decodeBackends (b.name :: seen) bs)), accepts_orFail]
        intro _ _
        rw [accepts_bind_iff (q := (0 ≤ b.weight ∧ b.weight ≤ 65535) ∧
          Accepts (decodeBackends (b.name :: seen) bs)), accepts_failIf, not_not]
        intro _ _
        rw [accepts_bind_iff (q := Accepts (decodeBackends (b.name :: seen) bs)), accepts_failIf,
          hweight]
        intro _ _
        rw [accepts_bind_iff (q := True) (fun _ _ => by simp), and_true]

def ofTarget (b : BackendTarget) : Backend := ⟨b.name, b.address, b.port, b.weight⟩

/-- A backend that is written is read as its target. -/
theorem readBackend_ipvsBackendJson (b : BackendTarget) (c : Backend) :
    readBackend (ipvsBackendJson b) = .ok c ↔
      (IsInt64 b.port ∧ IsInt64 b.weight) ∧ ofTarget b = c := by
  unfold readBackend ipvsBackendJson
  simp only [Json.members, bind_ok, pure_ok, Except.ok.injEq, exists_eq_left', Json.get,
    List.reverse_cons, List.reverse_nil, List.nil_append, List.cons_append]
  simp [List.lookup_cons, Json.readString, Json.readInt_num, ofTarget, and_assoc]

/-- What the agent reads out of the kernel balancer of a spec. -/
def ipvsInput (lb : LoadBalancer) (zone : Zone) (backends : List BackendTarget) : IpvsInput where
  enabled := some lb.enabled
  vip := (zoneVipAddress (some zone)).getD ""
  ports := [53]
  protocols := ["udp", "tcp"]
  algo := lb.ipvsAlgo.value
  backends := (backends.filter (·.enabled)).map ofTarget
  check := some ⟨orDefault lb.hcIntervalS 2, 2, orDefault lb.hcMaxFailures 2⟩

/-- The numbers of the check and of the backends are integers of the agent. -/
def IpvsNumbersFit (lb : LoadBalancer) (backends : List BackendTarget) : Prop :=
  IsInt64 (orDefault lb.hcIntervalS 2) ∧ IsInt64 (orDefault lb.hcMaxFailures 2) ∧
    ∀ b ∈ backends.filter (·.enabled), IsInt64 b.port ∧ IsInt64 b.weight

/-- The spec of the kernel's balancer is read as it was written. -/
theorem readIpvs_ipvsSpec {lb : LoadBalancer} {zone : Zone} {backends : List BackendTarget}
    (hnumbers : IpvsNumbersFit lb backends) :
    Json.readStruct? readIpvs (ipvsSpec lb zone backends) =
      .ok (some (ipvsInput lb zone backends)) := by
  obtain ⟨hinterval, hretry, hbackends⟩ := hnumbers
  have hreadInterval := Json.readInt_num.mpr ⟨hinterval, rfl⟩
  have hreadRetry := Json.readInt_num.mpr ⟨hretry, rfl⟩
  have hreadTwo := Json.readInt_num.mpr ⟨(by decide : IsInt64 2), rfl⟩
  have hcheck : Json.readStruct? readCheck (.obj [
      ("interval_s", .num (orDefault lb.hcIntervalS 2)),
      ("timeout_s", .num 2),
      ("retry", .num (orDefault lb.hcMaxFailures 2))]) =
      .ok (some ⟨orDefault lb.hcIntervalS 2, 2, orDefault lb.hcMaxFailures 2⟩) := by
    simp [Json.readStruct?, readCheck, Json.get, List.lookup_cons, hreadInterval, hreadRetry,
      hreadTwo]
    rfl
  have hports : Json.readList Json.readInt (.arr [.num 53]) = .ok [53] := by decide
  have hlist := (Json.readList_arr readBackend_ipvsBackendJson).mpr ⟨hbackends, rfl⟩
  unfold ipvsSpec
  rw [Json.readStruct?]
  simp [readIpvs, Json.get, List.lookup_cons, Json.readBool?, Json.readString, hports,
    Json.readList_strs, hlist, hcheck]
  rfl

theorem accepts_algo (a : IpvsAlgo) : Accepts (decodeAlgo a.value) := by
  refine ⟨a.value, ?_⟩
  cases a <;> decide

/-- A check is taken when its interval and its retries are in range. -/
theorem accepts_decodeCheck {c : Check} (hinterval : 0 ≤ c.intervalS)
    (htimeout : 0 ≤ c.timeoutS ∧ c.timeoutS ≤ 600) (hretry : 0 ≤ c.retry) :
    Accepts (decodeCheck (some c)) ↔ c.intervalS ≤ 3600 ∧ c.retry ≤ 100 := by
  unfold decodeCheck
  rw [accepts_bind_iff (q := True) (fun _ _ => by simp), accepts_failIf, and_true]
  omega

/-- The decoder accepts an enabled kernel balancer exactly when each field is accepted. -/
theorem accepts_decodeIpvs {vipIp : IpLiterals.Ip} {v : IpvsInput} (hon : v.enabled.getD true = true) :
    Accepts (decodeIpvs vipIp v) ↔
      parseIP v.vip = some vipIp ∧ Accepts (decodePorts v.ports) ∧
        Accepts (decodeProtocols v.protocols) ∧ Accepts (decodeAlgo v.algo) ∧
        Accepts (decodeBackends [] v.backends) ∧ Accepts (decodeCheck v.check) := by
  unfold decodeIpvs
  rw [if_pos hon, accepts_bind]
  simp only [orFail_ok]
  have hrest : ∀ ip, Accepts (do
      failIf (ip ≠ vipIp) "ipvs.vip must be the address of the VRRP vip" []
      let ports ← decodePorts v.ports
      let protocols ← decodeProtocols v.protocols
      let algo ← decodeAlgo v.algo
      let backends ← decodeBackends [] v.backends
      let check ← decodeCheck v.check
      return (⟨true, ipString ip, ports, protocols, algo, backends, check⟩ : IpvsSpec)) ↔
      ip = vipIp ∧ Accepts (decodePorts v.ports) ∧ Accepts (decodeProtocols v.protocols) ∧
        Accepts (decodeAlgo v.algo) ∧ Accepts (decodeBackends [] v.backends) ∧
        Accepts (decodeCheck v.check) := by
    intro ip
    rw [accepts_bind_iff fun _ _ => accepts_bind_iff fun _ _ => accepts_bind_iff fun _ _ =>
      accepts_bind_iff fun _ _ => accepts_bind_iff fun _ _ =>
      accepts_bind_iff (q := True) fun _ _ => by simp]
    simp only [accepts_failIf, not_not, ne_eq, and_true]
  simp only [hrest]
  constructor
  · rintro ⟨ip, hip, rfl, h⟩
    exact ⟨hip, h⟩
  · rintro ⟨hip, h⟩
    exact ⟨vipIp, hip, rfl, h⟩

/-- **What the agent asks of the kernel balancer of an enabled spec.** -/
theorem accepts_ipvsInput {lb : LoadBalancer} {zone : Zone} {backends : List BackendTarget}
    {vipIp : IpLiterals.Ip} (hon : lb.enabled = true) (hvip : zone.vip.getD "" ≠ "")
    (hip : parseIP (beforeSlash (zone.vip.getD "")) = some vipIp)
    (hinterval : 1 ≤ lb.hcIntervalS) (hfailures : 1 ≤ lb.hcMaxFailures)
    (hnames : ((backends.filter (·.enabled)).map (·.name)).Nodup) :
    Accepts (decodeIpvs vipIp (ipvsInput lb zone backends)) ↔
      (∀ b ∈ backends.filter (·.enabled), BackendFits (ofTarget b)) ∧
        lb.hcIntervalS ≤ 3600 ∧ lb.hcMaxFailures ≤ 100 := by
  have haddress : (zoneVipAddress (some zone)).getD "" = beforeSlash (zone.vip.getD "") := by
    cases hzone : zone.vip with
    | none => simp [hzone] at hvip
    | some vip =>
        have hne : vip ≠ "" := by simpa [hzone] using hvip
        simp [zoneVipAddress, hzone, hne]
  have hdefaultInterval : orDefault lb.hcIntervalS 2 = lb.hcIntervalS := if_neg (by omega)
  have hdefaultRetry : orDefault lb.hcMaxFailures 2 = lb.hcMaxFailures := if_neg (by omega)
  have hports : Accepts (decodePorts [53]) := ⟨[53], by decide⟩
  have hprotocols : Accepts (decodeProtocols ["udp", "tcp"]) := ⟨["udp", "tcp"], by decide +kernel⟩
  have hcheck : Accepts (decodeCheck (some
      ⟨orDefault lb.hcIntervalS 2, 2, orDefault lb.hcMaxFailures 2⟩)) ↔
      lb.hcIntervalS ≤ 3600 ∧ lb.hcMaxFailures ≤ 100 := by
    have hleast : 0 ≤ lb.hcIntervalS ∧ 0 ≤ lb.hcMaxFailures := by omega
    rw [hdefaultInterval, hdefaultRetry,
      accepts_decodeCheck hleast.1 (by decide : (0 : Int) ≤ 2 ∧ (2 : Int) ≤ 600) hleast.2]
  have hbackends : Accepts (decodeBackends [] ((backends.filter (·.enabled)).map ofTarget)) ↔
      ∀ b ∈ backends.filter (·.enabled), BackendFits (ofTarget b) := by
    have hmap : (((backends.filter (·.enabled)).map ofTarget).map (·.name)).Nodup := by
      simpa [List.map_map, Function.comp_def, ofTarget] using hnames
    rw [accepts_decodeBackends]
    constructor
    · rintro ⟨hfits, -, -⟩ b hb
      exact hfits _ (List.mem_map_of_mem hb)
    · intro hfits
      refine ⟨fun b hb => ?_, hmap, fun _ _ => List.not_mem_nil⟩
      obtain ⟨t, ht, rfl⟩ := List.mem_map.mp hb
      exact hfits t ht
  rw [accepts_decodeIpvs (by simp [ipvsInput, hon])]
  simp only [ipvsInput, haddress, hip, hports, hprotocols, accepts_algo, hbackends, hcheck,
    true_and]

/-! ## The VRRP instance -/

/-- The decoder accepts an enabled spec exactly when each field is accepted. -/
theorem accepts_decodeEnabled {i : Input} :
    Accepts (decodeEnabled i) ↔
      ∃ vipIp, decodeVip i.vip = .ok vipIp ∧ ¬(i.interface ≠ "" ∧ isIface i.interface = false) ∧
        ¬(i.routerId < 1 ∨ 255 < i.routerId) ∧ Accepts (decodePriority i.priority) ∧
        ¬ isAuth i.authPass = false ∧ (∀ p ∈ i.peers, Accepts (decodePeer p)) ∧
        (∃ ip, parseIP i.srcIp = some ip) ∧ Accepts (decodeCheckDns i.checkDns) ∧
        Accepts (decodeIpvs? vipIp i.ipvs) := by
  unfold decodeEnabled
  rw [accepts_bind]
  refine exists_congr fun vipIp => and_congr_right fun _ => ?_
  rw [accepts_bind_iff fun _ _ => accepts_bind_iff fun _ _ => accepts_bind_iff fun _ _ =>
    accepts_bind_iff fun _ _ => accepts_bind_iff fun _ _ => accepts_bind_iff fun _ _ =>
    accepts_bind_iff fun _ _ => accepts_bind_iff (q := True) fun _ _ => by simp]
  simp only [accepts_failIf, accepts_orFail, accepts_mapM, and_true]

section Balancer

variable {env : Environment} {lb : LoadBalancer} {zone : Zone} {agent : Agent}
  {peers : List String} {backends : List BackendTarget} {spec : Json Int}

/-- What the agent reads out of the spec of a balancer. -/
def balancerInput (env : Environment) (lb : LoadBalancer) (zone : Zone) (agent : Agent)
    (peers : List String) (backends : List BackendTarget) : Input where
  enabled := some lb.enabled
  vip := zone.vip.getD ""
  interface := lb.vipInterface
  routerId := orDefault (zone.vrrpRouterId.getD 0) 53
  priority := orDefault lb.vrrpPriority 100
  authPass := String.ofList (((env.decryptSecret zone.vrrpAuthEnc).getD "").toList.take 8)
  peers := keepalivedPeers agent peers
  srcIp := agent.address
  checkDns := some (if lb.mode = .ipvs then "" else "127.0.0.1:53")
  ipvs := if lb.mode = .ipvs then some (ipvsInput lb zone backends) else none

/-- The spec of keepalived is read as it was written. -/
theorem readInput_keepalivedSpec
    (hspec : keepalivedSpec env lb zone agent peers backends = some spec)
    (hrouter : IsInt64 (orDefault (zone.vrrpRouterId.getD 0) 53))
    (hpriority : IsInt64 (orDefault lb.vrrpPriority 100))
    (hnumbers : lb.mode = .ipvs → IpvsNumbersFit lb backends) :
    readInput spec = .ok (balancerInput env lb zone agent peers backends) := by
  have hreadRouter := Json.readInt_num.mpr ⟨hrouter, rfl⟩
  have hreadPriority := Json.readInt_num.mpr ⟨hpriority, rfl⟩
  unfold keepalivedSpec at hspec
  dsimp only at hspec
  split at hspec
  · cases hspec
  · obtain rfl := Option.some.inj hspec
    have hipvs : lb.mode = .ipvs → Json.readStruct? readIpvs (ipvsSpec lb zone backends) =
        .ok (some (ipvsInput lb zone backends)) := fun hmode => readIpvs_ipvsSpec (hnumbers hmode)
    unfold readInput
    cases hmode : lb.mode with
    | dnsdist =>
        simp only [Json.members, bind_ok, pure_ok, Except.ok.injEq, exists_eq_left', Json.get,
          reduceCtorEq, if_false, List.append_nil, List.reverse_cons, List.reverse_nil,
          List.nil_append, List.cons_append]
        simp [List.lookup_cons, Json.readBool?, Json.readString, readString?, Json.readList_strs,
          Json.readStruct?, hreadRouter, hreadPriority, balancerInput, hmode]
    | ipvs =>
        simp only [Json.members, bind_ok, pure_ok, Except.ok.injEq, exists_eq_left', Json.get,
          if_true, List.reverse_cons, List.reverse_nil, List.nil_append, List.cons_append]
        simp [List.lookup_cons, Json.readBool?, Json.readString, readString?, Json.readList_strs,
          hreadRouter, hreadPriority, hipvs hmode, balancerInput, hmode]

/-- The peers of an agent are the other addresses. -/
theorem mem_keepalivedPeers {p : String} :
    p ∈ keepalivedPeers agent peers ↔ p ∈ peers ∧ p ≠ "" ∧ p ≠ agent.address := by
  simp [keepalivedPeers]

/-- A peer is taken when it is an address. -/
theorem accepts_decodePeer {p : String} :
    Accepts (decodePeer p) ↔ ∃ ip, parseIP p = some ip := by
  unfold decodePeer
  rw [accepts_bind_iff (q := True) (fun _ _ => by simp), accepts_orFail, and_true]

/-- **What the agent asks of a keepalived spec.** -/
theorem accepts_keepalivedSpec
    (hspec : keepalivedSpec env lb zone agent peers backends = some spec)
    (hrouter : 1 ≤ zone.vrrpRouterId.getD 0 ∧ zone.vrrpRouterId.getD 0 ≤ 255)
    (hpriority : 1 ≤ lb.vrrpPriority ∧ lb.vrrpPriority ≤ 254)
    (hiface : lb.vipInterface = "" ∨ isIface lb.vipInterface = true)
    (hvip : Checked Validators.validateVip (some (zone.vip.getD "")))
    (hnumbers : lb.mode = .ipvs → IpvsNumbersFit lb backends)
    (hchecks : 1 ≤ lb.hcIntervalS ∧ 1 ≤ lb.hcMaxFailures)
    (hnames : ((backends.filter (·.enabled)).map (·.name)).Nodup) :
    Accepts (decode spec) ↔
      (lb.enabled = true →
        '%' ∉ (zone.vip.getD "").toList ∧
        isAuth (String.ofList (((env.decryptSecret zone.vrrpAuthEnc).getD "").toList.take 8)) =
          true ∧
        (∀ p ∈ peers, p ≠ "" → p ≠ agent.address → ∃ ip, parseIP p = some ip) ∧
        (∃ ip, parseIP agent.address = some ip) ∧
        (lb.mode = .ipvs →
          (∀ b ∈ backends.filter (·.enabled), BackendFits (ofTarget b)) ∧
            lb.hcIntervalS ≤ 3600 ∧ lb.hcMaxFailures ≤ 100)) := by
  have hdefaultRouter : orDefault (zone.vrrpRouterId.getD 0) 53 = zone.vrrpRouterId.getD 0 :=
    if_neg (by omega)
  have hdefaultPriority : orDefault lb.vrrpPriority 100 = lb.vrrpPriority := if_neg (by omega)
  have hnonempty : zone.vip.getD "" ≠ "" := by
    intro hempty
    simp [keepalivedSpec, hempty] at hspec
  have hread := readInput_keepalivedSpec hspec
    (by rw [hdefaultRouter]; unfold IsInt64; omega)
    (by rw [hdefaultPriority]; unfold IsInt64; omega) hnumbers
  have hdecode : decode spec = if lb.enabled then
      decodeEnabled (balancerInput env lb zone agent peers backends) else .ok disabledSpec := by
    unfold decode
    rw [hread]
    rfl
  by_cases hon : lb.enabled = true
  · rw [hdecode, if_pos hon, accepts_decodeEnabled]
    have hrange : Accepts (decodePriority lb.vrrpPriority) := by
      refine ⟨lb.vrrpPriority, bind_ok.mpr ⟨(), failIf_ok.mpr ?_, ?_⟩⟩
      · omega
      · rw [if_neg (by omega)]
        rfl
    have hcheckDns : Accepts (decodeCheckDns
        (some (if lb.mode = .ipvs then "" else "127.0.0.1:53"))) := by
      split
      · exact ⟨"", by decide⟩
      · exact ⟨"127.0.0.1:53", by decide +kernel⟩
    have hbackup : ¬(lb.vipInterface ≠ "" ∧ isIface lb.vipInterface = false) := by
      rintro ⟨hne, hbad⟩
      rcases hiface with hempty | hok
      · exact hne hempty
      · rw [hok] at hbad
        cases hbad
    have hrouterOk : ¬(zone.vrrpRouterId.getD 0 < 1 ∨ 255 < zone.vrrpRouterId.getD 0) := by omega
    simp only [balancerInput, hdefaultRouter, hdefaultPriority, hrange, hcheckDns, hbackup,
      hrouterOk, not_false_eq_true, true_and, Bool.not_eq_false, mem_keepalivedPeers,
      accepts_decodePeer, decodeVip_iff hvip, hon, forall_const]
    constructor
    · rintro ⟨vipIp, ⟨hpercent, hip⟩, hauth, hpeers, hsrc, hipvs⟩
      refine ⟨hpercent, hauth, fun p hp hne hother => hpeers p ⟨hp, hne, hother⟩, hsrc, ?_⟩
      intro hmode
      rw [if_pos hmode, decodeIpvs?, accepts_bind_iff (q := True) (fun _ _ => by simp),
        and_true] at hipvs
      exact (accepts_ipvsInput hon hnonempty hip hchecks.1 hchecks.2 hnames).mp hipvs
    · rintro ⟨hpercent, hauth, hpeers, hsrc, hipvs⟩
      obtain ⟨vipIp, -, hip⟩ := (readVip_iff hvip).mp hpercent
      refine ⟨vipIp, ⟨hpercent, hip⟩, hauth, fun p hp => hpeers p hp.1 hp.2.1 hp.2.2, hsrc, ?_⟩
      cases hmode : lb.mode with
      | dnsdist => exact ⟨none, rfl⟩
      | ipvs =>
          rw [if_pos rfl, decodeIpvs?, accepts_bind_iff (q := True) (fun _ _ => by simp),
            and_true]
          exact (accepts_ipvsInput hon hnonempty hip hchecks.1 hchecks.2 hnames).mpr (hipvs hmode)
  · rw [hdecode, if_neg hon]
    simp [hon]

end Balancer

/-! ## What a spec says -/

/-- The decoder keeps the names of the backends, in order. -/
theorem decodeBackends_names {seen : List String} {bs checked : List Backend}
    (h : decodeBackends seen bs = .ok checked) : checked.map (·.name) = bs.map (·.name) := by
  induction bs generalizing seen checked with
  | nil =>
      obtain rfl : [] = checked := Except.ok.inj h
      rfl
  | cons b bs ih =>
      obtain ⟨_, -, h⟩ := bind_ok.mp h
      obtain ⟨_, -, h⟩ := bind_ok.mp h
      obtain ⟨_, -, h⟩ := bind_ok.mp h
      obtain ⟨_, -, h⟩ := bind_ok.mp h
      obtain ⟨_, -, h⟩ := bind_ok.mp h
      obtain ⟨rest, hrest, h⟩ := bind_ok.mp h
      obtain rfl := pure_ok.mp h
      simp [ih hrest]

/-- The backends keep their names. -/
theorem decodeIpvs_names {vipIp : IpLiterals.Ip} {v : IpvsInput} {checked : IpvsSpec}
    (h : decodeIpvs vipIp v = .ok checked) (hon : checked.enabled = true) :
    checked.backends.map (·.name) = v.backends.map (·.name) := by
  unfold decodeIpvs at h
  split at h
  · obtain ⟨_, -, h⟩ := bind_ok.mp h
    obtain ⟨_, -, h⟩ := bind_ok.mp h
    obtain ⟨_, -, h⟩ := bind_ok.mp h
    obtain ⟨_, -, h⟩ := bind_ok.mp h
    obtain ⟨_, -, h⟩ := bind_ok.mp h
    obtain ⟨_, hbackends, h⟩ := bind_ok.mp h
    obtain ⟨_, -, h⟩ := bind_ok.mp h
    obtain rfl := pure_ok.mp h
    exact decodeBackends_names hbackends
  · obtain rfl := Except.ok.inj h
    cases hon

/-- What was enabled is decoded in full. -/
theorem decodeEnabled_ok {i : Input} {spec : Spec} (h : decodeEnabled i = .ok spec) :
    spec.enabled = true ∧ ∃ vipIp, decodeIpvs? vipIp i.ipvs = .ok spec.ipvs := by
  obtain ⟨vipIp, -, h⟩ := bind_ok.mp h
  obtain ⟨_, -, h⟩ := bind_ok.mp h
  obtain ⟨_, -, h⟩ := bind_ok.mp h
  obtain ⟨_, -, h⟩ := bind_ok.mp h
  obtain ⟨_, -, h⟩ := bind_ok.mp h
  obtain ⟨_, -, h⟩ := bind_ok.mp h
  obtain ⟨_, -, h⟩ := bind_ok.mp h
  obtain ⟨_, -, h⟩ := bind_ok.mp h
  obtain ⟨_, hipvs, h⟩ := bind_ok.mp h
  obtain rfl := pure_ok.mp h
  exact ⟨rfl, vipIp, hipvs⟩

/-- An input that was read has the members of an object. -/
theorem readInput_ok {raw : Json Int} {i : Input} (h : readInput raw = .ok i) :
    ∃ fields, Json.members raw = .ok fields ∧
      Json.readBool? (Json.get fields "enabled") = .ok i.enabled ∧
      Json.readStruct? readIpvs (Json.get fields "ipvs") = .ok i.ipvs := by
  obtain ⟨fields, hfields, h⟩ := bind_ok.mp h
  obtain ⟨_, henabled, h⟩ := bind_ok.mp h
  obtain ⟨_, -, h⟩ := bind_ok.mp h
  obtain ⟨_, -, h⟩ := bind_ok.mp h
  obtain ⟨_, -, h⟩ := bind_ok.mp h
  obtain ⟨_, -, h⟩ := bind_ok.mp h
  obtain ⟨_, -, h⟩ := bind_ok.mp h
  obtain ⟨_, -, h⟩ := bind_ok.mp h
  obtain ⟨_, -, h⟩ := bind_ok.mp h
  obtain ⟨_, -, h⟩ := bind_ok.mp h
  obtain ⟨_, hipvs, h⟩ := bind_ok.mp h
  obtain rfl := pure_ok.mp h
  exact ⟨fields, hfields, henabled, hipvs⟩

/-- The backends of the kernel's balancer were read from the member of that name. -/
theorem readIpvs_backends {fields : List (String × Json Int)} {v : IpvsInput}
    (h : readIpvs fields = .ok v) :
    Json.readList readBackend (Json.get fields "backends") = .ok v.backends := by
  obtain ⟨_, -, h⟩ := bind_ok.mp h
  obtain ⟨_, -, h⟩ := bind_ok.mp h
  obtain ⟨_, -, h⟩ := bind_ok.mp h
  obtain ⟨_, -, h⟩ := bind_ok.mp h
  obtain ⟨_, -, h⟩ := bind_ok.mp h
  obtain ⟨_, hbackends, h⟩ := bind_ok.mp h
  obtain ⟨_, -, h⟩ := bind_ok.mp h
  obtain rfl := pure_ok.mp h
  exact hbackends

/-- A spec that was decoded is enabled unless it says otherwise. -/
theorem decode_enabled {raw : Json Int} {spec : Spec} (h : decode raw = .ok spec) :
    ∃ fields, Json.members raw = .ok fields ∧
      ∃ enabled, Json.readBool? (Json.get fields "enabled") = .ok enabled ∧
        spec.enabled = enabled.getD true := by
  obtain ⟨i, hi, hspec⟩ := bind_ok.mp h
  obtain ⟨fields, hfields, henabled, -⟩ := readInput_ok (wrap_ok.mp hi)
  refine ⟨fields, hfields, i.enabled, henabled, ?_⟩
  split at hspec
  · rename_i hon
    rw [hon]
    exact (decodeEnabled_ok hspec).1
  · rename_i hoff
    obtain rfl := pure_ok.mp hspec
    exact (Bool.not_eq_true _ ▸ hoff).symm

/-- The kernel's balancer of a decoded spec was decoded from the member `ipvs`. -/
theorem decode_ipvs {raw : Json Int} {spec : Spec} {v : IpvsSpec} (h : decode raw = .ok spec)
    (hv : spec.ipvs = some v) :
    ∃ vipIp fields i, Json.members raw = .ok fields ∧
      Json.readStruct? readIpvs (Json.get fields "ipvs") = .ok (some i) ∧
      decodeIpvs vipIp i = .ok v := by
  obtain ⟨i, hi, hspec⟩ := bind_ok.mp h
  obtain ⟨fields, hfields, -, hread⟩ := readInput_ok (wrap_ok.mp hi)
  split at hspec
  · obtain ⟨-, vipIp, hipvs⟩ := decodeEnabled_ok hspec
    rw [hv] at hipvs
    cases hinput : i.ipvs with
    | none =>
        rw [hinput] at hipvs
        cases hipvs
    | some input =>
        rw [hinput] at hipvs hread
        obtain ⟨checked, hchecked, heq⟩ := bind_ok.mp hipvs
        obtain rfl := Option.some.inj (pure_ok.mp heq)
        exact ⟨vipIp, fields, input, hfields, hread, hchecked⟩
  · obtain rfl := pure_ok.mp hspec
    cases hv

section Balancer

variable {env : Environment} {lb : LoadBalancer} {zone : Zone} {agent : Agent}
  {peers : List String} {backends : List BackendTarget} {raw : Json Int} {spec : Spec}

/-- The agent takes from the spec of a balancer whether the balancer is enabled. -/
theorem enabled_of_keepalivedSpec
    (hraw : keepalivedSpec env lb zone agent peers backends = some raw)
    (h : decode raw = .ok spec) : spec.enabled = lb.enabled := by
  obtain ⟨fields, hfields, enabled, henabled, hspec⟩ := decode_enabled h
  unfold keepalivedSpec at hraw
  dsimp only at hraw
  split at hraw
  · cases hraw
  · obtain rfl := Option.some.inj hraw
    obtain rfl := Except.ok.inj hfields
    rw [hspec]
    cases hmode : lb.mode <;> rw [hmode] at henabled <;> rw [← Except.ok.inj henabled] <;> rfl

/-- **The agent knows the real servers of a balancer by the names of its pool.** -/
theorem names_of_keepalivedSpec {v : IpvsSpec}
    (hraw : keepalivedSpec env lb zone agent peers backends = some raw)
    (h : decode raw = .ok spec) (hv : spec.ipvs = some v) (hon : v.enabled = true) :
    v.backends.map (·.name) = (backends.filter (·.enabled)).map (·.name) := by
  obtain ⟨vipIp, fields, i, hfields, hread, hchecked⟩ := decode_ipvs h hv
  unfold keepalivedSpec at hraw
  dsimp only at hraw
  split at hraw
  · cases hraw
  · obtain rfl := Option.some.inj hraw
    obtain rfl := Except.ok.inj hfields
    cases hmode : lb.mode with
    | dnsdist =>
        rw [hmode] at hread
        cases hread
    | ipvs =>
        rw [hmode] at hread
        obtain ⟨_, hinput, heq⟩ := bind_ok.mp hread
        obtain rfl := Option.some.inj (pure_ok.mp heq)
        obtain ⟨-, hmap⟩ :=
          (Json.readList_arr readBackend_ipvsBackendJson).mp (readIpvs_backends hinput)
        rw [decodeIpvs_names hchecked hon, ← hmap, List.map_map]
        rfl

end Balancer

end AdguardAdmin.Keepalived
