import AdguardAdmin.DnsdistDecoding
import AdguardAdmin.KeepalivedDecoding
import AdguardAdmin.PoolReachability
/-!
# Which planned specs the agent accepts

The validators of the two programs side by side.  The rows a plan is made of passed
the control plane's checks (`ValidRows`); `planAccepted_iff` says for which of them
the agent's decoders take the specs of the plan.

What does not nest: an enabled dnsdist balancer may have no backend; IPv6 zones
survive the normalisation of listen addresses, networks and VIPs; a health-check
name is stored with what its check looked past; keepalived wants address literals
where a host may have a hostname; the kernel balancer's weights, interval and
retries have tighter bounds; ports and the configured image are not checked at all;
a long name and a long id do not fit a backend name; a VRRP password may no longer
decrypt.
-/

namespace AdguardAdmin

open GoText Validators

/-! ## Rows that passed the validators -/

/-- An enrolled balancer carries the configured image instead of a checked one. -/
structure ValidLoadBalancer (env : Environment) (lb : LoadBalancer) : Prop where
  image : Checked validateImageRef lb.image ∨ lb.image = env.dnsdistImage
  listenAddresses : Checked checkListen lb.listenAddresses
  acl : Checked checkAcl lb.acl
  cacheMaxEntries : Checked checkPositive lb.cacheMaxEntries
  hcName : Checked checkHcName lb.hcName
  hcIntervalS : Checked checkPositive lb.hcIntervalS
  hcMaxFailures : Checked checkPositive lb.hcMaxFailures
  hcRise : Checked checkPositive lb.hcRise
  vrrpPriority : Checked validatePriority lb.vrrpPriority
  vipInterface : Checked validateInterface lb.vipInterface

/-- The password of a zone was generated when the zone got its VIP. -/
structure ValidZone (env : Environment) (zone : Zone) : Prop where
  vip : ∀ vip, zone.vip = some vip → Checked validateVip (some vip)
  vrrpRouterId : ∀ n, zone.vrrpRouterId = some n → Checked validateRouterId n
  vrrpAuth : ∀ enc, zone.vrrpAuthEnc = some enc → ∀ secret,
    env.decryptSecret (some enc) = some secret → ∃ bytes, secret = vrrpToken bytes

structure ValidOverride (o : LoadBalancerBackend) : Prop where
  weight : Checked checkBackendPositive o.weight
  order : Checked checkBackendPositive o.order

structure ValidRows (env : Environment) (db : Database) : Prop where
  loadBalancers : ∀ lb ∈ db.loadBalancers, ValidLoadBalancer env lb
  zones : ∀ zone ∈ db.zones, ValidZone env zone
  overrides : ∀ o ∈ db.overrides, ValidOverride o

/-- The secret store gives back what it was given. -/
def SecretsRoundTrip (env : Environment) : Prop :=
  ∀ secret enc, env.encryptSecret secret = some enc → env.decryptSecret (some enc) = some secret

/-! ## What the agent adds -/

section Fits

variable (env : Environment) (db : Database) (lb : LoadBalancer)

/-- The servers a balancer spreads queries over. -/
def InPool (s : Server) : Prop :=
  s ∈ db.servers ∧ s.enabled = true ∧ lb.zoneId.isSome ∧ s.zoneId = lb.zoneId ∧
    ((overrideOf db lb s).map (·.enabled)).getD true = true

/-- A property of every server of the pool and of where the balancer dials it. -/
def ForPool (p : Server → String → Int → Prop) : Prop :=
  ∀ s, InPool db lb s → ∀ address port, backendEndpoint env db lb s = some (address, port) →
    address ≠ "" → p s address port

/-- A row that makes a dnsdist spec the agent accepts. -/
structure DnsdistFits : Prop where
  image : lb.image = env.dnsdistImage → ImageFits env.dnsdistImage
  listen : ∀ l ∈ lb.listenAddresses, '%' ∉ l.toList
  acl : ∀ a ∈ lb.acl, '%' ∉ a.toList
  hcName : HcNameFits lb.hcName
  servers : ForPool env db lb fun s address port =>
    NameFits s ∧ containsAny address " \t\n\"'[]" = false ∧ (port = 0 ∨ Dnsdist.IsPort port)
  pool : lb.enabled = true → ∃ s, InPool db lb s ∧ ∃ address port,
    backendEndpoint env db lb s = some (address, port) ∧ address ≠ ""

/-- What the kernel balancer adds to that. -/
structure IpvsFits : Prop where
  servers : ForPool env db lb fun s address _ =>
    NameFits s ∧ (∃ ip, parseIP address = some ip) ∧
      ((overrideOf db lb s).map (·.weight)).getD 1 ≤ 65535
  hcIntervalS : lb.hcIntervalS ≤ 3600
  hcMaxFailures : lb.hcMaxFailures ≤ 100

/-- Rows that make a keepalived spec the agent accepts, for a zone with a VIP. -/
structure KeepalivedFits (agent : Agent) (zone : Zone) : Prop where
  vip : '%' ∉ (zone.vip.getD "").toList
  vrrpAuth : ∀ enc, zone.vrrpAuthEnc = some enc → enc ≠ "" →
    (env.decryptSecret (some enc)).isSome
  peers : ∀ peer ∈ peerAgents db zone lb, peer.address ≠ "" → peer.address ≠ agent.address →
    ∃ ip, parseIP peer.address = some ip
  srcIp : ∃ ip, parseIP agent.address = some ip
  ipvs : lb.mode = .ipvs → IpvsFits env db lb

/-- Rows that make a plan the agent accepts. -/
structure PlanFits (agent : Agent) : Prop where
  dnsdist : lb.mode = .dnsdist → DnsdistFits env db lb
  keepalived : lb.enabled = true → ∀ zone, lb.zoneId.bind db.getZone = some zone →
    zone.vip.getD "" ≠ "" → KeepalivedFits env db lb agent zone

end Fits

/-- The agent takes every spec of a plan. -/
def PlanAccepted (plan : LbPlan) : Prop :=
  (∀ spec, plan.dnsdist = some spec → Accepts (Dnsdist.decode spec)) ∧
    ∀ spec, plan.keepalived = some spec → Accepts (Keepalived.decode spec)

/-! ## The pool -/

section Pool

variable {env : Environment} {db : Database} {lb : LoadBalancer}

/-- The servers of a zone are its enabled ones. -/
theorem mem_zoneServers {zoneId : Nat} {s : Server} :
    s ∈ zoneServers db zoneId ↔ s ∈ db.servers ∧ s.zoneId = some zoneId ∧ s.enabled = true := by
  simp [zoneServers]

/-- The enabled targets are the servers of the pool that have an address. -/
theorem mem_enabledBackends {b : BackendTarget} :
    b ∈ (desiredBackends env db lb).filter (·.enabled) ↔
      ∃ s, InPool db lb s ∧ backendTarget env db lb s = some b := by
  have henabled : ∀ s, backendTarget env db lb s = some b →
      b.enabled = ((overrideOf db lb s).map (·.enabled)).getD true := by
    intro s hs
    unfold backendTarget at hs
    split at hs
    · cases hs
    · split at hs
      · cases hs
      · rw [← Option.some.inj hs]
  unfold desiredBackends InPool
  cases hzone : lb.zoneId with
  | none => simp
  | some zoneId =>
      simp only [List.mem_filter, List.mem_filterMap, mem_zoneServers, Option.isSome_some, true_and]
      constructor
      · rintro ⟨⟨s, ⟨hs, hzoneId, hon⟩, htarget⟩, hb⟩
        exact ⟨s, ⟨hs, hon, hzoneId, (henabled s htarget) ▸ hb⟩, htarget⟩
      · rintro ⟨s, ⟨hs, hon, hzoneId, hoverride⟩, htarget⟩
        exact ⟨⟨s, ⟨hs, hzoneId, hon⟩, htarget⟩, (henabled s htarget).trans hoverride⟩

/-- An endpoint with an address makes a target. -/
theorem exists_backendTarget {s : Server} {address : String} {port : Int}
    (hendpoint : backendEndpoint env db lb s = some (address, port)) (hne : address ≠ "") :
    ∃ b, backendTarget env db lb s = some b ∧ b.address = address ∧ b.port = port := by
  unfold backendTarget
  rw [hendpoint]
  simp [hne]

/-- A property of the targets as a property of the servers. -/
theorem forall_enabledBackends {p : Server → String → Int → Prop} {q : BackendTarget → Prop}
    (hpq : ∀ s b, backendTarget env db lb s = some b → (q b ↔ p s b.address b.port)) :
    (∀ b ∈ (desiredBackends env db lb).filter (·.enabled), q b) ↔ ForPool env db lb p := by
  constructor
  · intro h s hs address port hendpoint hne
    obtain ⟨b, hb, rfl, rfl⟩ := exists_backendTarget hendpoint hne
    exact (hpq s b hb).mp (h b (mem_enabledBackends.mpr ⟨s, hs, hb⟩))
  · intro h b hb
    obtain ⟨s, hs, htarget⟩ := mem_enabledBackends.mp hb
    obtain ⟨hendpoint, hne, -⟩ := backendTarget_eq_some htarget
    exact (hpq s b htarget).mpr (h s hs _ _ hendpoint hne)

/-- A pool has an enabled backend when a server of it has an address. -/
theorem enabledBackends_ne_nil :
    (desiredBackends env db lb).filter (·.enabled) ≠ [] ↔
      ∃ s, InPool db lb s ∧ ∃ address port,
        backendEndpoint env db lb s = some (address, port) ∧ address ≠ "" := by
  constructor
  · intro hne
    obtain ⟨b, hb⟩ := List.exists_mem_of_ne_nil _ hne
    obtain ⟨s, hs, htarget⟩ := mem_enabledBackends.mp hb
    obtain ⟨hendpoint, hne, -⟩ := backendTarget_eq_some htarget
    exact ⟨s, hs, _, _, hendpoint, hne⟩
  · rintro ⟨s, hs, address, port, hendpoint, hne⟩
    obtain ⟨b, hb, -⟩ := exists_backendTarget hendpoint hne
    exact List.ne_nil_of_mem (mem_enabledBackends.mpr ⟨s, hs, hb⟩)

/-- Weights and orders that passed the validators are in range. -/
theorem checked_weights (hrows : ValidRows env db) {s : Server} {b : BackendTarget}
    (hb : backendTarget env db lb s = some b) :
    (1 ≤ b.weight ∧ b.weight ≤ 2147483647) ∧ 1 ≤ b.order ∧ b.order ≤ 2147483647 := by
  obtain ⟨-, -, -, -, hweight, horder⟩ := backendTarget_eq_some hb
  rw [hweight, horder]
  cases ho : overrideOf db lb s with
  | none => simp
  | some o =>
      have hmem : o ∈ db.overrides := by
        have hfound := List.mem_of_find?_eq_some ho
        exact List.mem_of_mem_filter (List.mem_reverse.mp hfound)
      exact ⟨checked_validateBetween.mp (hrows.overrides o hmem).weight,
        checked_validateBetween.mp (hrows.overrides o hmem).order⟩

/-- The kernel balancer dials port 53. -/
theorem ipvs_port {s : Server} {b : BackendTarget} (hmode : lb.mode = .ipvs)
    (hb : backendTarget env db lb s = some b) : b.port = 53 := by
  obtain ⟨hendpoint, -⟩ := backendTarget_eq_some hb
  unfold backendEndpoint at hendpoint
  rw [hmode] at hendpoint
  split at hendpoint
  · obtain ⟨agent, -, hpair⟩ := Option.map_eq_some_iff.mp hendpoint
    simp only [if_true, Prod.mk.injEq] at hpair
    exact hpair.2.symm
  · simp only [if_true, Option.some.injEq, Prod.mk.injEq] at hendpoint
    exact hendpoint.2.symm

end Pool

/-! ## The two decoders -/

section Decoders

variable {env : Environment} {db : Database} {lb : LoadBalancer}

/-- A positive number of 31 bits fits into 64. -/
theorem isInt64_of_positive {n m : Int} (h : 1 ≤ n ∧ n ≤ m) (hm : m ≤ 2147483647) : IsInt64 n := by
  unfold IsInt64
  omega

theorem orDefault_of_positive {n m d : Int} (h : 1 ≤ n ∧ n ≤ m) : orDefault n d = n :=
  if_neg (by omega)

/-- A name that passes the check is not empty. -/
theorem checkHcName_ne_empty {name : String} (h : Checked checkHcName name) : name ≠ "" := by
  rintro rfl
  have hdot := (checked_checkHcName h).1
  simp at hdot

/-- The image of a balancer fits, if the default one does where it is used. -/
theorem imageFits_iff (h : Checked validateImageRef lb.image ∨ lb.image = env.dnsdistImage) :
    ImageFits (orText lb.image env.dnsdistImage) ↔
      (lb.image = env.dnsdistImage → ImageFits env.dnsdistImage) := by
  unfold orText
  by_cases hempty : lb.image = ""
  · rw [if_pos hempty]
    rcases h with hchecked | hsetting
    · have href := isImageRef_of_checked hchecked
      rw [hempty] at href
      cases href
    · simp [hsetting]
  · rw [if_neg hempty]
    rcases h with hchecked | hsetting
    · have hfits := imageFits_of_checked hchecked
      exact iff_of_true hfits fun heq => heq ▸ hfits
    · simp [hsetting]

/-- The agent takes a dnsdist spec exactly when its numbers and its image fit. -/
theorem accepts_dnsdistSpec_iff (hrows : ValidRows env db) (hlb : lb ∈ db.loadBalancers) :
    Accepts (Dnsdist.decode (dnsdistSpec env lb (desiredBackends env db lb))) ↔
      DnsdistFits env db lb := by
  have hvalid := hrows.loadBalancers lb hlb
  have hentries := checked_validateBetween.mp hvalid.cacheMaxEntries
  have hinterval := checked_validateBetween.mp hvalid.hcIntervalS
  have hfailures := checked_validateBetween.mp hvalid.hcMaxFailures
  have hrise := checked_validateBetween.mp hvalid.hcRise
  have hnumbers : Dnsdist.NumbersFit lb := by
    unfold Dnsdist.NumbersFit
    rw [orDefault_of_positive hentries, orDefault_of_positive hinterval,
      orDefault_of_positive hfailures, orDefault_of_positive hrise]
    exact ⟨isInt64_of_positive hentries (by decide), isInt64_of_positive hinterval (by decide),
      isInt64_of_positive hfailures (by decide), isInt64_of_positive hrise (by decide)⟩
  have hweights : ∀ b ∈ desiredBackends env db lb, IsInt64 b.weight ∧ IsInt64 b.order := by
    intro b hb
    obtain ⟨s, -, -, -, -, htarget⟩ := mem_desiredBackends hb
    obtain ⟨hweight, horder⟩ := checked_weights hrows htarget
    exact ⟨isInt64_of_positive hweight (by decide), isInt64_of_positive horder (by decide)⟩
  have hlisten : (∀ l ∈ lb.listenAddresses, Accepts (Dnsdist.decodeListenEntry l)) ↔
      ∀ l ∈ lb.listenAddresses, '%' ∉ l.toList :=
    forall₂_congr fun l hl => listenEntry_iff ((checked_checkListen hvalid.listenAddresses).2 l hl)
  have hacl : (∀ a ∈ lb.acl, Accepts (Dnsdist.decodeAclEntry a)) ↔
      ∀ a ∈ lb.acl, '%' ∉ a.toList := by
    obtain ⟨raw, hraw⟩ := hvalid.acl
    exact forall₂_congr fun a ha => aclEntry_iff (checked_of_mapM hraw a ha)
  have hservers : (∀ b ∈ (desiredBackends env db lb).filter (·.enabled),
      Dnsdist.BackendFits (Dnsdist.ofTarget b)) ↔
      ForPool env db lb fun s address port =>
        NameFits s ∧ containsAny address " \t\n\"'[]" = false ∧
          (port = 0 ∨ Dnsdist.IsPort port) := by
    refine forall_enabledBackends fun s b hb => ?_
    obtain ⟨-, hne, -, hname, -, -⟩ := backendTarget_eq_some hb
    have hnameFits : Dnsdist.isName b.name = true ↔ NameFits s := by
      rw [hname]
      exact isName_backendNameFor_iff s
    constructor
    · rintro ⟨hn, ha, hp⟩
      exact ⟨hnameFits.mp hn, ha.2, hp⟩
    · rintro ⟨hn, ha, hp⟩
      exact ⟨hnameFits.mpr hn, ⟨hne, ha⟩, hp⟩
  rw [Dnsdist.accepts_dnsdistSpec hnumbers (checkHcName_ne_empty hvalid.hcName) hweights
    (enabledBackends_names_nodup env db lb), imageFits_iff hvalid.image, hlisten, hacl, hservers,
    hcName_iff hvalid.hcName, not_and, ← ne_eq, enabledBackends_ne_nil]
  constructor
  · rintro ⟨himage, hl, hhc, ha, hs, hpool⟩
    exact ⟨himage, hl, ha, hhc, hs, hpool⟩
  · rintro ⟨himage, hl, ha, hhc, hs, hpool⟩
    exact ⟨himage, hl, hhc, ha, hs, hpool⟩

/-! ### VRRP passwords -/

/-- The digits of a token are characters of names. -/
theorem isNameChar_urlsafeDigit (n : Nat) : isNameChar (urlsafeDigit n) = true := by
  by_cases h : n < 64
  · exact (by decide : ∀ n < 64, isNameChar (urlsafeDigit n) = true) n h
  · have hlast : urlsafeDigit n = '_' := by
      unfold urlsafeDigit
      rw [if_neg (by omega), if_neg (by omega), if_neg (by omega), if_neg (by omega)]
    rw [hlast]
    decide

/-- A generated password is one the agent takes. -/
theorem isAuth_vrrpToken (bytes : Fin 6 → Fin 256) :
    Keepalived.isAuth (String.ofList ((vrrpToken bytes).toList.take 8)) = true := by
  simp [vrrpToken, List.ofFn_succ, tokenUrlsafe, Keepalived.isAuth, matchesClass,
    isNameChar_urlsafeDigit]

/-- The password of a spec is accepted unless the stored one no longer decrypts. -/
theorem isAuth_iff (hsecrets : SecretsRoundTrip env) {zone zone' : Zone}
    (hvalid : ValidZone env zone) (hensure : ensureZoneVrrp env zone = some zone') :
    Keepalived.isAuth (String.ofList
        (((env.decryptSecret zone'.vrrpAuthEnc).getD "").toList.take 8)) = true ↔
      ∀ enc, zone.vrrpAuthEnc = some enc → enc ≠ "" → (env.decryptSecret (some enc)).isSome := by
  obtain ⟨auth, hauth, rfl⟩ := Option.map_eq_some_iff.mp hensure
  dsimp only
  unfold zoneVrrpAuth at hauth
  by_cases hnew : zone.vrrpAuthEnc.getD "" = ""
  · rw [if_pos hnew] at hauth
    rw [hsecrets _ _ hauth]
    refine iff_of_true (isAuth_vrrpToken _) fun enc henc hne => ?_
    rw [henc] at hnew
    exact absurd hnew hne
  · rw [if_neg hnew] at hauth
    have hne : auth ≠ "" := by
      rw [hauth] at hnew
      exact hnew
    cases hsecret : env.decryptSecret (some auth) with
    | none =>
        refine iff_of_false (by decide) fun h => ?_
        have hsome := h auth hauth hne
        rw [hsecret] at hsome
        cases hsome
    | some secret =>
        obtain ⟨bytes, rfl⟩ := hvalid.vrrpAuth auth hauth secret hsecret
        refine iff_of_true (isAuth_vrrpToken bytes) fun enc henc _ => ?_
        obtain rfl := Option.some.inj (hauth.symm.trans henc)
        rw [hsecret]
        rfl

/-- Filling in the secrets changes nothing else, and every router id is in range. -/
theorem ensureZoneVrrp_spec {zone zone' : Zone} (hvalid : ValidZone env zone)
    (hensure : ensureZoneVrrp env zone = some zone') :
    zone'.id = zone.id ∧ zone'.vip = zone.vip ∧
      1 ≤ zone'.vrrpRouterId.getD 0 ∧ zone'.vrrpRouterId.getD 0 ≤ 255 := by
  obtain ⟨auth, -, rfl⟩ := Option.map_eq_some_iff.mp hensure
  refine ⟨rfl, rfl, ?_⟩
  show 1 ≤ zone.vrrpRouterId.getD _ ∧ zone.vrrpRouterId.getD _ ≤ 255
  cases hid : zone.vrrpRouterId with
  | none =>
      simp only [Option.getD_none]
      omega
  | some n => exact checked_validateBetween.mp (hvalid.vrrpRouterId n hid)

/-- The agent takes a keepalived spec exactly when its numbers and its VIP fit. -/
theorem accepts_keepalivedSpec_iff (hsecrets : SecretsRoundTrip env) (hrows : ValidRows env db)
    (hlb : lb ∈ db.loadBalancers) {agent : Agent} {zone zone' : Zone} (hzone : zone ∈ db.zones)
    (hvip : zone.vip.getD "" ≠ "") (hensure : ensureZoneVrrp env zone = some zone')
    {spec : Json Int}
    (hspec : keepalivedSpec env lb zone' agent ((peerAgents db zone' lb).map (·.address))
      (desiredBackends env db lb) = some spec) :
    Accepts (Keepalived.decode spec) ↔
      (lb.enabled = true → KeepalivedFits env db lb agent zone) := by
  have hvalid := hrows.loadBalancers lb hlb
  have hvalidZone := hrows.zones zone hzone
  obtain ⟨hid, hsameVip, hrouter⟩ := ensureZoneVrrp_spec hvalidZone hensure
  have hinterval := checked_validateBetween.mp hvalid.hcIntervalS
  have hfailures := checked_validateBetween.mp hvalid.hcMaxFailures
  have hchecked : Checked validateVip (some (zone'.vip.getD "")) := by
    rw [hsameVip]
    cases hset : zone.vip with
    | none => simp [hset] at hvip
    | some vip => exact hvalidZone.vip vip hset
  have hnumbers : lb.mode = .ipvs →
      Keepalived.IpvsNumbersFit lb (desiredBackends env db lb) := by
    intro hmode
    unfold Keepalived.IpvsNumbersFit
    rw [orDefault_of_positive hinterval, orDefault_of_positive hfailures]
    refine ⟨isInt64_of_positive hinterval (by decide), isInt64_of_positive hfailures (by decide),
      fun b hb => ?_⟩
    obtain ⟨s, -, htarget⟩ := mem_enabledBackends.mp hb
    rw [ipvs_port hmode htarget]
    have hweight := (checked_weights hrows htarget).1
    exact ⟨by decide, isInt64_of_positive hweight (by decide)⟩
  have hservers : lb.mode = .ipvs →
      ((∀ b ∈ (desiredBackends env db lb).filter (·.enabled),
        Keepalived.BackendFits (Keepalived.ofTarget b)) ↔
      ForPool env db lb fun s address _ =>
        NameFits s ∧ (∃ ip, parseIP address = some ip) ∧
          ((overrideOf db lb s).map (·.weight)).getD 1 ≤ 65535) := by
    intro hmode
    refine forall_enabledBackends fun s b hb => ?_
    obtain ⟨-, -, -, hname, hweight, -⟩ := backendTarget_eq_some hb
    have hleast := (checked_weights hrows hb).1.1
    have hport := ipvs_port hmode hb
    have hnameFits : Keepalived.isName b.name = true ↔ NameFits s := by
      rw [hname]
      exact isName_backendNameFor_iff s
    rw [← hweight]
    constructor
    · rintro ⟨hn, ha, -, hw⟩
      exact ⟨hnameFits.mp hn, ha, hw.2⟩
    · rintro ⟨hn, ha, hw⟩
      refine ⟨hnameFits.mpr hn, ha, ?_, ?_⟩
      · show Keepalived.IsPort b.port
        rw [hport]
        decide
      · show 0 ≤ b.weight ∧ b.weight ≤ 65535
        omega
  have hpeers : (∀ p ∈ (peerAgents db zone' lb).map (·.address), p ≠ "" → p ≠ agent.address →
      ∃ ip, parseIP p = some ip) ↔
      ∀ peer ∈ peerAgents db zone lb, peer.address ≠ "" → peer.address ≠ agent.address →
        ∃ ip, parseIP peer.address = some ip := by
    have hsame : peerAgents db zone' lb = peerAgents db zone lb := by simp [peerAgents, hid]
    rw [hsame, List.forall_mem_map]
  rw [Keepalived.accepts_keepalivedSpec hspec hrouter
    (checked_validateBetween.mp hvalid.vrrpPriority)
    (checked_validateInterface hvalid.vipInterface) hchecked hnumbers ⟨hinterval.1, hfailures.1⟩
    (enabledBackends_names_nodup env db lb), isAuth_iff hsecrets hvalidZone hensure, hpeers,
    hsameVip]
  refine imp_congr_right fun _ => ?_
  constructor
  · rintro ⟨hpercent, hauth, hp, hsrc, hipvs⟩
    refine ⟨hpercent, hauth, hp, hsrc, fun hmode => ?_⟩
    obtain ⟨hs, hi, hf⟩ := hipvs hmode
    exact ⟨(hservers hmode).mp hs, hi, hf⟩
  · rintro ⟨hpercent, hauth, hp, hsrc, hipvs⟩
    refine ⟨hpercent, hauth, hp, hsrc, fun hmode => ?_⟩
    obtain ⟨hs, hi, hf⟩ := hipvs hmode
    exact ⟨(hservers hmode).mpr hs, hi, hf⟩

end Decoders

/-! ## Plans -/

section Plans

variable {env : Environment} {db : Database} {lb : LoadBalancer} {agent : Agent} {plan : LbPlan}

/-- The dnsdist part of a plan is accepted exactly when its rows fit. -/
theorem dnsdist_accepted_iff (hrows : ValidRows env db) (hlb : lb ∈ db.loadBalancers)
    (hplan : plan.dnsdist = if lb.mode = .ipvs then none
      else some (dnsdistSpec env lb (desiredBackends env db lb))) :
    (∀ spec, plan.dnsdist = some spec → Accepts (Dnsdist.decode spec)) ↔
      (lb.mode = .dnsdist → DnsdistFits env db lb) := by
  rw [hplan]
  cases hmode : lb.mode with
  | ipvs => simp
  | dnsdist =>
      rw [if_neg (by decide), ← accepts_dnsdistSpec_iff hrows hlb]
      constructor
      · exact fun h _ => h _ rfl
      · intro h spec hspec
        rw [← Option.some.inj hspec]
        exact h rfl

/-- The keepalived part of a plan is accepted exactly when its rows fit. -/
theorem keepalived_accepted_iff (hsecrets : SecretsRoundTrip env) (hrows : ValidRows env db)
    (hlb : lb ∈ db.loadBalancers)
    (hplan : plannedKeepalived env db lb agent = some plan.keepalived) :
    (∀ spec, plan.keepalived = some spec → Accepts (Keepalived.decode spec)) ↔
      (lb.enabled = true → ∀ zone, lb.zoneId.bind db.getZone = some zone →
        zone.vip.getD "" ≠ "" → KeepalivedFits env db lb agent zone) := by
  unfold plannedKeepalived at hplan
  cases hzone : lb.zoneId.bind db.getZone with
  | none =>
      rw [hzone] at hplan
      rw [← Option.some.inj hplan]
      simp
  | some zone =>
      rw [hzone] at hplan
      dsimp only at hplan
      by_cases hvip : zone.vip.getD "" = ""
      · rw [if_pos hvip] at hplan
        rw [← Option.some.inj hplan]
        simp [hvip]
      · rw [if_neg hvip] at hplan
        obtain ⟨zone', hensure, hspec⟩ := Option.map_eq_some_iff.mp hplan
        have hmem : zone ∈ db.zones := by
          obtain ⟨id, -, hfound⟩ := Option.bind_eq_some_iff.mp hzone
          exact List.mem_of_find?_eq_some hfound
        have hsame : zone'.vip.getD "" ≠ "" := by
          rw [(ensureZoneVrrp_spec (hrows.zones zone hmem) hensure).2.1]
          exact hvip
        obtain ⟨spec, hsome⟩ : ∃ spec, plan.keepalived = some spec := by
          rw [← hspec]
          unfold keepalivedSpec
          rw [if_neg hsame]
          exact ⟨_, rfl⟩
        rw [hsome] at hspec ⊢
        have hiff := accepts_keepalivedSpec_iff hsecrets hrows hlb hmem hvip hensure hspec
        constructor
        · rintro h hon zone'' heq -
          rw [← Option.some.inj heq]
          exact hiff.mp (h spec rfl) hon
        · intro h spec' hspec'
          rw [← Option.some.inj hspec']
          exact hiff.mpr fun hon => h hon zone rfl hvip

end Plans

/-- **The agent accepts a plan exactly when its rows fit.** -/
theorem planAccepted_iff (env : Environment) (db : Database) (hsecrets : SecretsRoundTrip env)
    (hrows : ValidRows env db) (lbId : Nat) (lb : LoadBalancer) (agent : Agent) (plan : LbPlan)
    (hlb : db.getLoadBalancer lbId = some lb) (hagent : db.getAgent lb.agentId = some agent)
    (hplan : lbPlan env db lbId = some plan) :
    PlanAccepted plan ↔ PlanFits env db lb agent := by
  have hmem : lb ∈ db.loadBalancers := List.mem_of_find?_eq_some hlb
  obtain ⟨hdnsdist, hkeepalived⟩ := lbPlan_eq_some env db hlb hagent hplan
  unfold PlanAccepted
  rw [dnsdist_accepted_iff hrows hmem hdnsdist,
    keepalived_accepted_iff hsecrets hrows hmem hkeepalived]
  exact ⟨fun ⟨hd, hk⟩ => ⟨hd, hk⟩, fun ⟨hd, hk⟩ => ⟨hd, hk⟩⟩

/-! ## A direct-routing balancer -/

/-- A direct-routing balancer and its server on one host; the server's weight is an
override. -/
def ipvsDatabase (weight : Int) : Database where
  zones := [⟨1, some "10.0.0.53/24", some 51, some "AAAAAAAA"⟩]
  agents := [⟨1, "10.0.0.11"⟩]
  servers := [managedServer 1 "dns-a" 1]
  loadBalancers := [{ dnsdistBalancer 1 1 with mode := .ipvs }]
  overrides := [⟨1, 1, true, weight, 1⟩]
  zoneKeys := by decide
  agentKeys := by decide
  serverKeys := by decide
  loadBalancerKeys := by decide

/-- **The defaults of a new balancer pass their own checks.** -/
theorem validLoadBalancer_default (env : Environment) (id agentId : Nat) (mode : LbMode) :
    ValidLoadBalancer env { dnsdistBalancer id agentId with mode := mode } := by
  have himage : validateImageRef "powerdns/dnsdist-20:2.0.8" = .ok "powerdns/dnsdist-20:2.0.8" := by
    decide +kernel
  have hlisten : checkListen ["0.0.0.0:53"] = .ok ["0.0.0.0:53"] := by decide +kernel
  have hacl : checkAcl Dnsdist.defaultAcl = .ok Dnsdist.defaultAcl := by decide +kernel
  have hname : checkHcName "a.root-servers.net." = .ok "a.root-servers.net." := by decide +kernel
  have hiface : validateInterface "" = .ok "" := by decide
  have hpositive : ∀ n : Int, 1 ≤ n ∧ n ≤ 100000000 → Checked checkPositive n :=
    fun n hn => checked_validateBetween.mpr hn
  exact {
    image := Or.inl ⟨_, himage⟩
    listenAddresses := ⟨_, hlisten⟩
    acl := ⟨_, hacl⟩
    cacheMaxEntries := hpositive 100000 (by decide)
    hcName := ⟨_, hname⟩
    hcIntervalS := hpositive 1 (by decide)
    hcMaxFailures := hpositive 3 (by decide)
    hcRise := hpositive 2 (by decide)
    vrrpPriority := checked_validateBetween.mpr (by decide : (1 : Int) ≤ 100 ∧ (100 : Int) ≤ 254)
    vipInterface := ⟨_, hiface⟩ }

/-- The rows of the direct-routing balancer passed the validators. -/
theorem validRows_ipvsDatabase {weight : Int} (hweight : 1 ≤ weight ∧ weight ≤ 2147483647) :
    ValidRows defaultEnvironment (ipvsDatabase weight) where
  loadBalancers := by
    intro lb hlb
    obtain rfl := List.mem_singleton.mp hlb
    exact validLoadBalancer_default defaultEnvironment 1 1 .ipvs
  zones := by
    intro zone hzone
    obtain rfl := List.mem_singleton.mp hzone
    refine ⟨?_, ?_, ?_⟩
    · intro vip hvip
      obtain rfl := Option.some.inj hvip
      exact ⟨"10.0.0.53/24", by decide +kernel⟩
    · intro n hn
      obtain rfl := Option.some.inj hn
      exact ⟨51, by decide⟩
    · intro enc henc secret hsecret
      obtain rfl := Option.some.inj (hsecret.symm.trans henc.symm)
      exact ⟨fun _ => ⟨0, by decide⟩, by decide⟩
  overrides := by
    intro o ho
    obtain rfl := List.mem_singleton.mp ho
    exact ⟨checked_validateBetween.mpr hweight,
      checked_validateBetween.mpr (by decide : (1 : Int) ≤ 1 ∧ (1 : Int) ≤ 2147483647)⟩

theorem secretsRoundTrip_default : SecretsRoundTrip defaultEnvironment := by
  intro secret enc h
  exact h.symm

/-- A direct-routing balancer whose server has weight 1 fits. -/
theorem planFits_weight_one :
    PlanFits defaultEnvironment (ipvsDatabase 1) { dnsdistBalancer 1 1 with mode := .ipvs }
      ⟨1, "10.0.0.11"⟩ where
  dnsdist := nofun
  keepalived := by
    intro _ zone hzone _
    have hfound : (some 1).bind (ipvsDatabase 1).getZone =
        some ⟨1, some "10.0.0.53/24", some 51, some "AAAAAAAA"⟩ := by rfl
    obtain rfl := Option.some.inj (hfound.symm.trans hzone)
    have haddress : ∃ ip, parseIP "10.0.0.11" = some ip :=
      Option.isSome_iff_exists.mp (by decide +kernel)
    refine ⟨by decide, fun _ _ _ => rfl, fun peer hpeer => ?_, haddress,
      fun _ => ⟨?_, by decide, by decide⟩⟩
    · have halone : peerAgents (ipvsDatabase 1) ⟨1, some "10.0.0.53/24", some 51, some "AAAAAAAA"⟩
          { dnsdistBalancer 1 1 with mode := .ipvs } = [] := by decide
      exact absurd (halone ▸ hpeer) List.not_mem_nil
    · rintro s ⟨hs, -⟩ address port hdialled -
      obtain rfl := List.mem_singleton.mp hs
      have hhost : backendEndpoint defaultEnvironment (ipvsDatabase 1)
          { dnsdistBalancer 1 1 with mode := .ipvs } (managedServer 1 "dns-a" 1) =
            some ("10.0.0.11", 53) := by decide
      obtain ⟨rfl, rfl⟩ := Prod.mk.inj (Option.some.inj (hhost.symm.trans hdialled))
      have hname : NameFits (managedServer 1 "dns-a" 1) := by
        unfold NameFits
        decide
      exact ⟨hname, haddress, by decide⟩

/-- The agent takes the plan of a backend with weight 1. -/
theorem weight_one_accepted :
    ∃ plan, lbPlan defaultEnvironment (ipvsDatabase 1) 1 = some plan ∧ PlanAccepted plan := by
  obtain ⟨plan, hplan⟩ := Option.isSome_iff_exists.mp
    (by decide +kernel : (lbPlan defaultEnvironment (ipvsDatabase 1) 1).isSome = true)
  exact ⟨plan, hplan, (planAccepted_iff defaultEnvironment (ipvsDatabase 1)
    secretsRoundTrip_default (validRows_ipvsDatabase (by decide)) 1 _ _ plan rfl rfl hplan).mpr
      planFits_weight_one⟩

/-- Every plan made of rows that passed the validators is accepted. -/
def EveryPlanAccepted : Prop :=
  ∀ env db, SecretsRoundTrip env → ValidRows env db → ∀ lbId plan,
    lbPlan env db lbId = some plan → PlanAccepted plan

/-- The agent's bound on a real server's weight is tighter than the override's. -/
theorem heavy_backend_rejected : ¬ EveryPlanAccepted := by
  intro hevery
  obtain ⟨plan, hplan⟩ := Option.isSome_iff_exists.mp
    (by decide +kernel : (lbPlan defaultEnvironment (ipvsDatabase 65536) 1).isSome = true)
  have hrejected : ((lbPlan defaultEnvironment (ipvsDatabase 65536) 1).bind (·.keepalived)).any
      (fun spec => (Keepalived.decode spec).isOk = false) = true := by decide +kernel
  have haccepted := hevery defaultEnvironment (ipvsDatabase 65536) secretsRoundTrip_default
    (validRows_ipvsDatabase (by decide)) 1 plan hplan
  rw [hplan, Option.bind_some, Option.any_eq_true] at hrejected
  obtain ⟨spec, hspec, hbad⟩ := hrejected
  obtain ⟨s, hok⟩ := haccepted.2 spec hspec
  rw [hok] at hbad
  simp [Except.isOk, Except.toBool] at hbad

end AdguardAdmin
