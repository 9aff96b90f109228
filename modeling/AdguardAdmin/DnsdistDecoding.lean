import AdguardAdmin.BackendNames
/-!
# Decoding the dnsdist spec of a balancer

What the agent's `Decode` asks of the spec `dnsdistSpec` builds, field by field.
The main result is `accepts_dnsdistSpec`.
-/

namespace AdguardAdmin.Dnsdist

open GoText

/-- What the decoder wants of one backend. -/
structure BackendFits (b : Backend) : Prop where
  name : isName b.name = true
  address : b.address ≠ "" ∧ containsAny b.address " \t\n\"'[]" = false
  port : b.port = 0 ∨ IsPort b.port

/-- Backends are taken when each fits and their names are new. -/
theorem accepts_decodeBackends {seen : List String} {bs : List Backend} :
    Accepts (decodeBackends seen bs) ↔
      (∀ b ∈ bs, BackendFits b) ∧ (bs.map (·.name)).Nodup ∧ ∀ b ∈ bs, b.name ∉ seen := by
  induction bs generalizing seen with
  | nil => simp [decodeBackends]
  | cons b bs ih =>
      have hport : ¬¬ IsPort (if b.port = 0 then 53 else b.port) ↔ b.port = 0 ∨ IsPort b.port := by
        rw [not_not]
        by_cases h0 : b.port = 0
        · simp [h0, IsPort]
        · simp [h0]
      unfold decodeBackends
      rw [accepts_bind_iff (q := b.name ∉ seen ∧
        (b.address ≠ "" ∧ containsAny b.address " \t\n\"'[]" = false) ∧
        (b.port = 0 ∨ IsPort b.port) ∧ Accepts (decodeBackends (b.name :: seen) bs)),
        newNames_cons, ih, accepts_failIf]
      · constructor
        · rintro ⟨hname, hnew, haddress, hp, hrest⟩
          exact ⟨⟨by simpa using hname, haddress, hp⟩, hnew, hrest⟩
        · rintro ⟨⟨hname, haddress, hp⟩, hnew, hrest⟩
          exact ⟨by simp [hname], hnew, haddress, hp, hrest⟩
      · intro _ _
        rw [accepts_bind_iff (q := (b.address ≠ "" ∧ containsAny b.address " \t\n\"'[]" = false) ∧
          (b.port = 0 ∨ IsPort b.port) ∧ Accepts (decodeBackends (b.name :: seen) bs)),
          accepts_failIf]
        intro _ _
        rw [accepts_bind_iff (q := (b.port = 0 ∨ IsPort b.port) ∧
          Accepts (decodeBackends (b.name :: seen) bs)), accepts_failIf, not_or,
          Bool.not_eq_true]
        intro _ _
        rw [accepts_bind_iff (q := Accepts (decodeBackends (b.name :: seen) bs)), accepts_failIf,
          hport]
        intro _ _
        rw [accepts_bind_iff (q := True) (fun _ _ => by simp), and_true]

/-- The decoder keeps the names of the backends, in order. -/
theorem decodeBackends_names {seen : List String} {bs checked : List Backend}
    (h : decodeBackends seen bs = .ok checked) : checked.map (·.name) = bs.map (·.name) := by
  induction bs generalizing seen checked with
  | nil =>
      obtain rfl : [] = checked := Except.ok.inj h
      rfl
  | cons b bs ih =>
      obtain ⟨_, -, h⟩ := bind_ok.mp h
      obtain ⟨_, -, h⟩ := bind_ok.mp h
      obtain ⟨_, -, h⟩ := bind_ok.mp h
      obtain ⟨_, -, h⟩ := bind_ok.mp h
      obtain ⟨rest, hrest, h⟩ := bind_ok.mp h
      obtain rfl := pure_ok.mp h
      simp [ih hrest]

/-- None are taken exactly when none were given. -/
theorem decodeBackends_eq_nil {seen : List String} {bs checked : List Backend}
    (h : decodeBackends seen bs = .ok checked) : checked = [] ↔ bs = [] := by
  rw [← List.map_eq_nil_iff (f := (·.name)), decodeBackends_names h, List.map_eq_nil_iff]

/-- What the decoder wants of a health check. -/
theorem accepts_decodeHealthcheck {h : Healthcheck} (hname : h.name ≠ "")
    (hmode : h.mode = "auto" ∨ h.mode = "lazy") :
    Accepts (decodeHealthcheck (some h)) ↔ isFqdn h.name = true ∧ h.name.utf8ByteSize ≤ 253 := by
  unfold decodeHealthcheck
  rw [accepts_bind_iff (q := True), accepts_failIf, and_true]
  · simp [hname]
  · intro _ _
    rw [accepts_bind_iff (q := True) (fun _ _ => by simp), accepts_failIf, and_true]
    simp only [iff_true]
    rintro ⟨-, hauto, hlazy⟩
    exact hmode.elim hauto hlazy

/-- Listeners are taken one by one. -/
theorem accepts_decodeListen {listen : List String} :
    Accepts (decodeListen listen) ↔ ∀ l ∈ listen, Accepts (decodeListenEntry l) := by
  unfold decodeListen
  rw [accepts_bind_iff (q := True) (fun _ _ => by simp), accepts_mapM, and_true]

/-- The decoder accepts exactly when each field is accepted. -/
theorem accepts_decodeInput {i : Input} :
    Accepts (decodeInput i) ↔
      Accepts (decodeInstallMethod i.installMethod) ∧ Accepts (decodeImage i.image) ∧
        Accepts (decodeListen i.listen) ∧ Accepts (decodePolicy i.policy) ∧
        Accepts (decodeHealthcheck i.healthcheck) ∧ Accepts (decodeAcl i.acl) ∧
        Accepts (decodeBackends [] i.backends) ∧ ¬(i.enabled.getD true = true ∧ i.backends = []) := by
  unfold decodeInput
  refine accepts_bind_iff fun _ _ => accepts_bind_iff fun _ _ => accepts_bind_iff fun _ _ =>
    accepts_bind_iff fun _ _ => accepts_bind_iff fun _ _ => accepts_bind_iff fun _ _ =>
    accepts_bind_iff fun checked hchecked => ?_
  rw [accepts_bind_iff (q := True) (fun _ _ => by simp), accepts_failIf, and_true,
    decodeBackends_eq_nil hchecked]

def ofTarget (b : BackendTarget) : Backend := ⟨b.name, b.address, b.port, b.weight, b.order⟩

/-- A backend that is written is read as its target. -/
theorem readBackend_dnsdistBackendJson (b : BackendTarget) (c : Backend) :
    readBackend (dnsdistBackendJson b) = .ok c ↔
      (IsInt64 b.port ∧ IsInt64 b.weight ∧ IsInt64 b.order) ∧ ofTarget b = c := by
  unfold readBackend dnsdistBackendJson
  simp only [Json.members, bind_ok, pure_ok, Except.ok.injEq, exists_eq_left', Json.get,
    List.reverse_cons, List.reverse_nil, List.nil_append, List.cons_append]
  simp [List.lookup_cons, Json.readString, Json.readInt_num, ofTarget, and_assoc]

/-- What the agent reads out of the spec of a balancer. -/
def balancerInput (env : Environment) (lb : LoadBalancer) (backends : List BackendTarget) :
    Input where
  enabled := some lb.enabled
  installMethod := lb.installMethod.value
  image := orText lb.image env.dnsdistImage
  listen := if lb.listenAddresses = [] then ["0.0.0.0:53"] else lb.listenAddresses
  policy := lb.policy.value
  ecs := some lb.ecs
  cache := some ⟨lb.cacheEnabled, orDefault lb.cacheMaxEntries 100000⟩
  healthcheck := some ⟨orText lb.hcName "a.root-servers.net.", orDefault lb.hcIntervalS 1,
    orDefault lb.hcMaxFailures 3, orDefault lb.hcRise 2, lb.hcMode.value⟩
  acl := some lb.acl
  backends := (backends.filter (·.enabled)).map ofTarget

/-- The numbers of a balancer row that its dnsdist spec carries are integers of the agent. -/
def NumbersFit (lb : LoadBalancer) : Prop :=
  IsInt64 (orDefault lb.cacheMaxEntries 100000) ∧ IsInt64 (orDefault lb.hcIntervalS 1) ∧
    IsInt64 (orDefault lb.hcMaxFailures 3) ∧ IsInt64 (orDefault lb.hcRise 2)

/-- The spec of dnsdist is read as it was written. -/
theorem readInput_dnsdistSpec {env : Environment} {lb : LoadBalancer}
    {backends : List BackendTarget} {i : Input} (hnumbers : NumbersFit lb) :
    readInput (dnsdistSpec env lb backends) = .ok i ↔
      (∀ b ∈ backends.filter (·.enabled), IsInt64 b.port ∧ IsInt64 b.weight ∧ IsInt64 b.order) ∧
        balancerInput env lb backends = i := by
  obtain ⟨hentries, hinterval, hfailures, hrise⟩ := hnumbers
  have hcache : Json.readStruct? readCache (.obj [("enabled", .bool lb.cacheEnabled),
      ("max_entries", .num (orDefault lb.cacheMaxEntries 100000))]) =
      .ok (some ⟨lb.cacheEnabled, orDefault lb.cacheMaxEntries 100000⟩) := by
    have hread := Json.readInt_num.mpr ⟨hentries, rfl⟩
    simp [Json.readStruct?, readCache, Json.get, List.lookup_cons, Json.readBool, Json.readBool?,
      hread]
    rfl
  have hhealthcheck : Json.readStruct? readHealthcheck (.obj [
      ("name", .str (orText lb.hcName "a.root-servers.net.")),
      ("interval_s", .num (orDefault lb.hcIntervalS 1)),
      ("max_failures", .num (orDefault lb.hcMaxFailures 3)),
      ("rise", .num (orDefault lb.hcRise 2)),
      ("mode", .str lb.hcMode.value)]) =
      .ok (some ⟨orText lb.hcName "a.root-servers.net.", orDefault lb.hcIntervalS 1,
        orDefault lb.hcMaxFailures 3, orDefault lb.hcRise 2, lb.hcMode.value⟩) := by
    have hreadInterval := Json.readInt_num.mpr ⟨hinterval, rfl⟩
    have hreadFailures := Json.readInt_num.mpr ⟨hfailures, rfl⟩
    have hreadRise := Json.readInt_num.mpr ⟨hrise, rfl⟩
    simp [Json.readStruct?, readHealthcheck, Json.get, List.lookup_cons, Json.readString,
      hreadInterval, hreadFailures, hreadRise]
    rfl
  unfold readInput dnsdistSpec
  simp only [Json.members, bind_ok, pure_ok, Except.ok.injEq, exists_eq_left', Json.get,
    List.reverse_cons, List.reverse_nil, List.nil_append, List.cons_append]
  simp [List.lookup_cons, Json.readBool?, Json.readString, Json.readList_strs,
    Json.readList?_strs, Json.readList_arr readBackend_dnsdistBackendJson, hcache, hhealthcheck,
    balancerInput, and_assoc]

/-- The agent knows the methods of installation. -/
theorem accepts_installMethod (m : InstallMethod) : Accepts (decodeInstallMethod m.value) := by
  cases m
  · exact ⟨"docker", by decide⟩
  · exact ⟨"bare_metal", by decide⟩

theorem accepts_policy (p : LbPolicy) : Accepts (decodePolicy p.value) := by
  refine ⟨p.value, ?_⟩
  cases p <;> decide

/-- A port fits into 64 bits. -/
theorem isInt64_of_isPort {p : Int} (h : p = 0 ∨ IsPort p) : IsInt64 p := by
  unfold IsPort at h
  unfold IsInt64
  omega

/-- **What the agent asks of a dnsdist spec.** -/
theorem accepts_dnsdistSpec {env : Environment} {lb : LoadBalancer} {backends : List BackendTarget}
    (hnumbers : NumbersFit lb) (hname : lb.hcName ≠ "")
    (hweights : ∀ b ∈ backends, IsInt64 b.weight ∧ IsInt64 b.order)
    (hnames : ((backends.filter (·.enabled)).map (·.name)).Nodup) :
    Accepts (decode (dnsdistSpec env lb backends)) ↔
      ImageFits (orText lb.image env.dnsdistImage) ∧
        (∀ l ∈ lb.listenAddresses, Accepts (decodeListenEntry l)) ∧
        (isFqdn lb.hcName = true ∧ lb.hcName.utf8ByteSize ≤ 253) ∧
        (∀ a ∈ lb.acl, Accepts (decodeAclEntry a)) ∧
        (∀ b ∈ backends.filter (·.enabled), BackendFits (ofTarget b)) ∧
        ¬(lb.enabled = true ∧ backends.filter (·.enabled) = []) := by
  have hmode : lb.hcMode.value = "auto" ∨ lb.hcMode.value = "lazy" := by
    cases lb.hcMode
    · exact Or.inl rfl
    · exact Or.inr rfl
  have hdefault : orText lb.hcName "a.root-servers.net." = lb.hcName := if_neg hname
  have hlisten : (∀ l ∈ (balancerInput env lb backends).listen, Accepts (decodeListenEntry l)) ↔
      ∀ l ∈ lb.listenAddresses, Accepts (decodeListenEntry l) := by
    have hall : Accepts (decodeListenEntry "0.0.0.0:53") := ⟨"0.0.0.0:53", by decide +kernel⟩
    by_cases hempty : lb.listenAddresses = []
    · simp [balancerInput, hempty, hall]
    · simp [balancerInput, hempty]
  have hbackends : Accepts (decodeBackends [] (balancerInput env lb backends).backends) ↔
      ∀ b ∈ backends.filter (·.enabled), BackendFits (ofTarget b) := by
    have hmap : ((balancerInput env lb backends).backends.map (·.name)).Nodup := by
      simpa [balancerInput, List.map_map, Function.comp_def, ofTarget] using hnames
    rw [accepts_decodeBackends]
    constructor
    · rintro ⟨hfits, -, -⟩ b hb
      exact hfits _ (List.mem_map_of_mem hb)
    · intro hfits
      refine ⟨fun b hb => ?_, hmap, fun _ _ => List.not_mem_nil⟩
      obtain ⟨t, ht, rfl⟩ := List.mem_map.mp hb
      exact hfits t ht
  have hinput : Accepts (decodeInput (balancerInput env lb backends)) ↔
      ImageFits (orText lb.image env.dnsdistImage) ∧
        (∀ l ∈ lb.listenAddresses, Accepts (decodeListenEntry l)) ∧
        (isFqdn lb.hcName = true ∧ lb.hcName.utf8ByteSize ≤ 253) ∧
        (∀ a ∈ lb.acl, Accepts (decodeAclEntry a)) ∧
        (∀ b ∈ backends.filter (·.enabled), BackendFits (ofTarget b)) ∧
        ¬(lb.enabled = true ∧ backends.filter (·.enabled) = []) := by
    rw [accepts_decodeInput, accepts_decodeListen, hlisten, hbackends]
    simp only [balancerInput, accepts_installMethod, accepts_policy, true_and, decodeAcl,
      accepts_mapM, accepts_decodeImage, Option.getD_some, List.map_eq_nil_iff, hdefault]
    rw [accepts_decodeHealthcheck hname hmode]
  unfold decode
  simp only [accepts_bind, wrap_ok, readInput_dnsdistSpec hnumbers]
  constructor
  · rintro ⟨i, ⟨-, rfl⟩, h⟩
    exact hinput.mp h
  · intro h
    refine ⟨balancerInput env lb backends, ⟨fun b hb => ?_, rfl⟩, hinput.mpr h⟩
    have hport := (h.2.2.2.2.1 b hb).port
    exact ⟨isInt64_of_isPort hport, hweights b (List.mem_of_mem_filter hb)⟩

/-! ## What a spec says -/

/-- What was decoded is enabled unless it says otherwise, and keeps the names of its backends. -/
theorem decodeInput_ok {i : Input} {spec : Spec} (h : decodeInput i = .ok spec) :
    spec.enabled = i.enabled.getD true ∧
      spec.backends.map (·.name) = i.backends.map (·.name) := by
  obtain ⟨_, -, h⟩ := bind_ok.mp h
  obtain ⟨_, -, h⟩ := bind_ok.mp h
  obtain ⟨_, -, h⟩ := bind_ok.mp h
  obtain ⟨_, -, h⟩ := bind_ok.mp h
  obtain ⟨_, -, h⟩ := bind_ok.mp h
  obtain ⟨_, -, h⟩ := bind_ok.mp h
  obtain ⟨checked, hchecked, h⟩ := bind_ok.mp h
  obtain ⟨_, -, h⟩ := bind_ok.mp h
  obtain rfl := pure_ok.mp h
  exact ⟨rfl, decodeBackends_names hchecked⟩

/-- An input that was read has the members of an object. -/
theorem readInput_ok {raw : Json Int} {i : Input} (h : readInput raw = .ok i) :
    ∃ fields, Json.members raw = .ok fields ∧
      Json.readBool? (Json.get fields "enabled") = .ok i.enabled ∧
      Json.readList readBackend (Json.get fields "backends") = .ok i.backends := by
  obtain ⟨fields, hfields, h⟩ := bind_ok.mp h
  obtain ⟨_, henabled, h⟩ := bind_ok.mp h
  obtain ⟨_, -, h⟩ := bind_ok.mp h
  obtain ⟨_, -, h⟩ := bind_ok.mp h
  obtain ⟨_, -, h⟩ := bind_ok.mp h
  obtain ⟨_, -, h⟩ := bind_ok.mp h
  obtain ⟨_, -, h⟩ := bind_ok.mp h
  obtain ⟨_, -, h⟩ := bind_ok.mp h
  obtain ⟨_, -, h⟩ := bind_ok.mp h
  obtain ⟨_, -, h⟩ := bind_ok.mp h
  obtain ⟨_, hbackends, h⟩ := bind_ok.mp h
  obtain rfl := pure_ok.mp h
  exact ⟨fields, hfields, henabled, hbackends⟩

/-- **What the agent takes from the spec of a balancer**: whether the balancer is
enabled, and the names of its pool. -/
theorem decode_dnsdistSpec {env : Environment} {lb : LoadBalancer}
    {backends : List BackendTarget} {spec : Spec}
    (h : decode (dnsdistSpec env lb backends) = .ok spec) :
    spec.enabled = lb.enabled ∧
      spec.backends.map (·.name) = (backends.filter (·.enabled)).map (·.name) := by
  obtain ⟨i, hi, hspec⟩ := bind_ok.mp h
  obtain ⟨fields, hfields, henabled, hbackends⟩ := readInput_ok (wrap_ok.mp hi)
  obtain rfl := Except.ok.inj hfields
  obtain ⟨hon, hnames⟩ := decodeInput_ok hspec
  obtain ⟨-, hmap⟩ := (Json.readList_arr readBackend_dnsdistBackendJson).mp hbackends
  refine ⟨?_, ?_⟩
  · rw [hon, ← Except.ok.inj henabled]
    rfl
  · rw [hnames, ← hmap, List.map_map]
    rfl

end AdguardAdmin.Dnsdist
