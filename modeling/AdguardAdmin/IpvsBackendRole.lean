import AdguardAdmin.RunLaws
import AdguardAdmin.FaultyPrograms
import AdguardAdmin.SpecBuilders
/-!
# The VIP on loopback

The `ipvs_backend` role puts the zone's VIP on `lo` and takes it away again.  It
acts on the current spec alone: a spec with another VIP does not remove the old
one, and the control plane's disabled spec names no VIP at all.

`added` records, for the statements only, which addresses this role put on `lo`.
The main result `follows_iff_nothingLeft` gives the exact condition under which
the addresses of the role follow the spec along a run.
-/

namespace AdguardAdmin.IpvsBackend

open GoText Faulty

/-! ## Specs -/

structure Spec where
  enabled : Bool
  vip : String
  deriving DecidableEq, Repr

/-- Validate a spec. -/
def decode (raw : Json Int) : Except Error Spec := do
  let (enabled?, vip) ← wrap "invalid ipvs_backend spec: " do
    let fields ← raw.members
    return (← Json.readBool? (Json.get fields "enabled"), ← Json.readString (Json.get fields "vip"))
  let enabled := enabled?.getD true
  match parseIP vip with
  | none =>
      if !enabled ∧ vip = "" then return ⟨enabled, ""⟩
      else errorf "vip %q must be an IP address without prefix" [vip]
  | some ip =>
      failIf (!isUnicast ip) "vip must be a unicast address" []
      return ⟨enabled, ipString ip⟩

/-- The VIP with its host prefix length. -/
def Spec.cidr (s : Spec) : String × Nat :=
  (s.vip, if ':' ∈ s.vip.toList then 128 else 32)

/-! ## The host -/

/-- What the role reads and changes: the addresses on `lo` with their prefix
lengths, the sysctl file and the live sysctl values. -/
structure Host where
  lo : List (String × Nat)
  sysctlFile : Option String
  arp : List (String × String)
  added : List (String × Nat)
  deriving DecidableEq, Repr

/-- The commands of a converge that may fail. -/
inductive Point where
  | addrShow
  | addrAdd
  | addrDel
  | removeFile
  | writeFile
  | sysctl
  deriving DecidableEq, Repr

def wanted (enabled : Bool) : List (String × String) :=
  if enabled then
    [("net.ipv4.conf.all.arp_ignore", "1"), ("net.ipv4.conf.all.arp_announce", "2"),
      ("net.ipv4.conf.lo.arp_ignore", "1"), ("net.ipv4.conf.lo.arp_announce", "2")]
  else
    [("net.ipv4.conf.all.arp_ignore", "0"), ("net.ipv4.conf.all.arp_announce", "0"),
      ("net.ipv4.conf.lo.arp_ignore", "0"), ("net.ipv4.conf.lo.arp_announce", "0")]

/-- The text of the sysctl.d file. -/
def sysctlText : String :=
  "# generated by adguard-admin-agent: IPVS direct-routing backend\n" ++
    String.join ((wanted true).map fun kv => kv.1 ++ " = " ++ kv.2 ++ "\n")

def Host.onLoopback (h : Host) (vip : String) : Bool := h.lo.any (·.1 = vip)

def Host.add (c : String × Nat) (h : Host) : Host :=
  { h with lo := c :: h.lo, added := c :: h.added }

def Host.del (c : String × Nat) (h : Host) : Host :=
  { h with lo := h.lo.filter (· ≠ c) }

/-- The addresses this role added that are still on `lo`. -/
def Host.held (h : Host) : List (String × Nat) := h.added.filter (· ∈ h.lo)

/-! ## Converge -/

/-- Converge on a disabled spec: every failure but that of removing the file is dropped. -/
def standDown (s : Spec) : Prog Point Host Unit := do
  let shown ← Prog.ask .addrShow
  let present ← Prog.read fun h : Host => h.onLoopback s.vip
  Prog.onlyIf (s.vip ≠ "" ∧ shown = .done ∧ present) (Prog.attempt .addrDel (Host.del s.cidr))
  Prog.command .removeFile fun h => { h with sysctlFile := none }
  Prog.attempt .sysctl fun h => { h with arp := wanted false }

/-- Converge on an enabled spec.  The add may report a failure after it took effect. -/
def bringUp (s : Spec) : Prog Point Host Unit := do
  Prog.command .addrShow id
  let present ← Prog.read fun h : Host => h.onLoopback s.vip
  Prog.onlyIf (present = false) (Prog.tearable .addrAdd (Host.add s.cidr) (Host.add s.cidr))
  Prog.command .writeFile fun h => { h with sysctlFile := some sysctlText }
  Prog.command .sysctl fun h => { h with arp := wanted true }

def converge (s : Spec) : Prog Point Host Unit :=
  if s.enabled then bringUp s else standDown s

/-- A successful converge on an enabled spec adds the VIP if `lo` lacks it. -/
theorem bringUp_ok {s : Spec} {f : Script Point} {h t : Host}
    (hrun : (bringUp s).run f h = (.ok (), t)) :
    t.lo = (if h.onLoopback s.vip then h.lo else s.cidr :: h.lo) ∧
      t.added = (if h.onLoopback s.vip then h.added else s.cidr :: h.added) := by
  simp only [bringUp, Prog.bind_ok, Prog.command_ok, Prog.read_ok, Prog.onlyIf_ok,
    Prog.tearable_ok, exists_const, exists_and_left, exists_eq_left, and_assoc, id_eq] at hrun
  obtain ⟨-, u, hadd, -, -, rfl⟩ := hrun
  rcases hadd with ⟨habsent, -, rfl⟩ | ⟨hpresent, rfl⟩
  · simp [habsent, Host.add]
  · simp [hpresent]

/-- A disabled spec without a VIP leaves `lo` alone. -/
theorem standDown_ok {s : Spec} {f : Script Point} {h t : Host} (hvip : s.vip = "")
    (hrun : (standDown s).run f h = (.ok (), t)) : t.lo = h.lo ∧ t.added = h.added := by
  simp only [standDown, Prog.bind_ok, Prog.command_ok, Prog.read_ok, Prog.ask_ok,
    Prog.onlyIf_ok, Prog.attempt_ok, exists_const, exists_and_left, exists_eq_left,
    and_assoc] at hrun
  obtain ⟨u, hdel, -, rfl⟩ := hrun
  rcases hdel with ⟨hnonempty, -⟩ | ⟨-, rfl⟩
  · exact absurd hvip hnonempty
  · split
    · exact ⟨rfl, rfl⟩
    · exact ⟨rfl, rfl⟩

/-! ## Runs -/

/-- What the control plane orders: the spec of a zone, or the disabled spec. -/
inductive Order where
  | enable (zone : Zone)
  | disable
  deriving DecidableEq, Repr

def Order.spec : Order → Json Int
  | .enable zone => ipvsBackendSpec (some zone) true
  | .disable => disabledIpvsBackend

/-- An accepted order is converged on; a rejected one changes nothing. -/
def step (h : Host) (a : Order × Script Point) : Host :=
  match decode a.1.spec with
  | .error _ => h
  | .ok s => (converge s).final a.2 h

/-- The addresses of the role are exactly what the spec asks for. -/
def Spec.Met (s : Spec) (h : Host) : Prop :=
  (∀ c ∈ h.held, s.enabled ∧ c = s.cidr) ∧ (s.enabled → s.cidr ∈ h.held)

/-- After a successful converge the addresses of the role follow the spec. -/
def Follows (h : Host) (a : Order × Script Point) : Prop :=
  match decode a.1.spec with
  | .error _ => True
  | .ok s => (converge s).succeeds a.2 h → s.Met ((converge s).final a.2 h)

/-- The host a spec can be met from: the role left no other address on `lo`, and
if the VIP is there already, the role put it there. -/
def Spec.NothingLeft (s : Spec) (h : Host) : Prop :=
  (∀ c ∈ h.held, s.enabled ∧ c = s.cidr) ∧ (s.enabled → h.onLoopback s.vip → s.cidr ∈ h.held)

def NothingLeft (h : Host) (a : Order × Script Point) : Prop :=
  match decode a.1.spec with
  | .error _ => True
  | .ok s => (converge s).succeeds a.2 h → s.NothingLeft h

instance (s : Spec) (h : Host) : Decidable (s.Met h) := by unfold Spec.Met; infer_instance

instance (h : Host) (a : Order × Script Point) : Decidable (Follows h a) := by
  unfold Follows
  split <;> infer_instance

/-- A spec of two fields is decoded from its VIP. -/
theorem decode_fields (enabled : Bool) (vip : String) :
    decode (.obj [("enabled", .bool enabled), ("vip", .str vip)]) =
      match parseIP vip with
      | none =>
          if !enabled ∧ vip = "" then .ok ⟨enabled, ""⟩
          else errorf "vip %q must be an IP address without prefix" [vip]
      | some ip => do
          failIf (!isUnicast ip) "vip must be a unicast address" []
          return ⟨enabled, ipString ip⟩ := rfl

/-- A decoded spec is enabled as its text says. -/
theorem enabled_of_decode {enabled : Bool} {vip : String} {s : Spec}
    (hdecode : decode (.obj [("enabled", .bool enabled), ("vip", .str vip)]) = .ok s) :
    s.enabled = enabled := by
  rw [decode_fields] at hdecode
  split at hdecode
  · split at hdecode
    · exact (congrArg Spec.enabled (Except.ok.inj hdecode)).symm
    · exact nomatch hdecode
  · obtain ⟨-, -, hspec⟩ := bind_ok.mp hdecode
    exact (congrArg Spec.enabled (Except.ok.inj hspec)).symm

/-- A disabled spec of the control plane names no VIP. -/
theorem vip_of_disabled {o : Order} {s : Spec} (hdecode : decode o.spec = .ok s)
    (hdisabled : s.enabled = false) : s.vip = "" := by
  have hempty : decode disabledIpvsBackend = .ok ⟨false, ""⟩ := rfl
  cases o with
  | disable =>
      have hs : ⟨false, ""⟩ = s := Except.ok.inj (hempty.symm.trans hdecode)
      rw [← hs]
  | enable zone =>
      by_cases hvip : (zoneVipAddress (some zone)).getD "" = ""
      · have hspec : (Order.enable zone).spec = disabledIpvsBackend := by
          simp [Order.spec, ipvsBackendSpec, disabledIpvsBackend, hvip]
        rw [hspec] at hdecode
        have hs : ⟨false, ""⟩ = s := Except.ok.inj (hempty.symm.trans hdecode)
        rw [← hs]
      · have henabled := enabled_of_decode hdecode
        simp [hvip, hdisabled] at henabled

/-- An address is held when it was added and is there. -/
private theorem mem_held {h : Host} {c : String × Nat} :
    c ∈ h.held ↔ c ∈ h.added ∧ c ∈ h.lo := by
  simp [Host.held]

/-- One successful converge meets the spec exactly when nothing else was left on `lo`. -/
theorem met_iff_nothingLeft {s : Spec} {f : Script Point} {h : Host}
    (hvip : s.enabled = false → s.vip = "") (hok : (converge s).succeeds f h = true) :
    s.Met ((converge s).final f h) ↔ s.NothingLeft h := by
  have hrun := Prog.succeeds_iff.mp hok
  unfold Spec.Met Spec.NothingLeft
  cases henabled : s.enabled with
  | false =>
      simp only [converge, henabled, Bool.false_eq_true, if_false] at hrun ⊢
      obtain ⟨hlo, hadded⟩ := standDown_ok (hvip henabled) hrun
      have hheld : ((standDown s).final f h).held = h.held := by
        unfold Host.held
        rw [hlo, hadded]
      simp [hheld]
  | true =>
      simp only [converge, henabled, if_true] at hrun ⊢
      obtain ⟨hlo, hadded⟩ := bringUp_ok hrun
      by_cases hpresent : h.onLoopback s.vip = true
      · have hheld : ((bringUp s).final f h).held = h.held := by
          unfold Host.held
          rw [hlo, hadded, if_pos hpresent, if_pos hpresent]
        simp [hheld, hpresent]
      · -- the VIP was absent: it is held now, next to whatever was held before
        have hheld : ∀ c, c ∈ ((bringUp s).final f h).held → c = s.cidr ∨ c ∈ h.held := by
          intro c hc
          simp only [mem_held, hlo, hadded, hpresent, if_false, List.mem_cons,
            Bool.false_eq_true] at hc
          rw [mem_held]
          tauto
        have hkept : ∀ c, c ∈ h.held → c ∈ ((bringUp s).final f h).held := by
          intro c hc
          obtain ⟨hin, hon⟩ := mem_held.mp hc
          simp [mem_held, hlo, hadded, hpresent, hin, hon]
        have hnew : s.cidr ∈ ((bringUp s).final f h).held := by
          simp [mem_held, hlo, hadded, hpresent]
        constructor
        · rintro ⟨honly, -⟩
          exact ⟨fun c hc => honly c (hkept c hc), fun _ hp => absurd hp hpresent⟩
        · rintro ⟨honly, -⟩
          refine ⟨fun c hc => ?_, fun _ => hnew⟩
          rcases hheld c hc with rfl | hc
          · exact ⟨trivial, rfl⟩
          · exact honly c hc

/-- The role follows a step exactly when nothing is left of the address before. -/
theorem follows_step_iff (h : Host) (a : Order × Script Point) :
    Follows h a ↔ NothingLeft h a := by
  unfold Follows NothingLeft
  cases hdecode : decode a.1.spec with
  | error e => exact Iff.rfl
  | ok s =>
      constructor
      · exact fun hfollows hok =>
          (met_iff_nothingLeft (vip_of_disabled hdecode) hok).mp (hfollows hok)
      · exact fun hleft hok =>
          (met_iff_nothingLeft (vip_of_disabled hdecode) hok).mpr (hleft hok)

/-- **Loopback follows the spec exactly when nothing was left behind.**  Along a
run, every successful converge leaves the addresses of the role at what the spec
asks for if and only if, before it, the role held no address but the spec's own
and the VIP was not on `lo` by someone else's hand. -/
theorem follows_iff_nothingLeft (start : Host) (run : List (Order × Script Point)) :
    RunLaws.Along step Follows start run ↔ RunLaws.Along step NothingLeft start run :=
  RunLaws.along_congr step follows_step_iff start run

/-- A host the role has not touched. -/
def freshHost : Host := ⟨[("127.0.0.1", 8)], none, wanted false, []⟩

/-- Standing a zone down leaves its VIP on `lo`. -/
theorem vip_outlives_disable :
    ¬ RunLaws.Along step Follows freshHost
      [(.enable ⟨1, some "10.0.0.53/24", none, none⟩, allDone), (.disable, allDone)] := by
  decide

end AdguardAdmin.IpvsBackend
