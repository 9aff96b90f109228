import AdguardAdmin.SpecBuilders
/-!
# The plan of a balancer

The specs a reconcile pass pushes for one balancer row.  Planning fills in the
VRRP router id and password of a zone that has none.
-/

namespace AdguardAdmin

/-! ## VRRP secrets -/

/-- The digits of the URL-safe base 64 alphabet. -/
def urlsafeDigit (n : Nat) : Char :=
  if n < 26 then Char.ofNat ('A'.toNat + n)
  else if n < 52 then Char.ofNat ('a'.toNat + (n - 26))
  else if n < 62 then Char.ofNat ('0'.toNat + (n - 52))
  else if n = 62 then '-'
  else '_'

/-- `secrets.token_urlsafe`: base 64 without padding. -/
def tokenUrlsafe : List (Fin 256) → List Char
  | a :: b :: c :: rest =>
      urlsafeDigit (a.val / 4) :: urlsafeDigit (a.val % 4 * 16 + b.val / 16) ::
        urlsafeDigit (b.val % 16 * 4 + c.val / 64) :: urlsafeDigit (c.val % 64) ::
          tokenUrlsafe rest
  | [a, b] =>
      [urlsafeDigit (a.val / 4), urlsafeDigit (a.val % 4 * 16 + b.val / 16),
        urlsafeDigit (b.val % 16 * 4)]
  | [a] => [urlsafeDigit (a.val / 4), urlsafeDigit (a.val % 4 * 16)]
  | [] => []

/-- The VRRP password generated from six random bytes. -/
def vrrpToken (bytes : Fin 6 → Fin 256) : String :=
  String.ofList ((tokenUrlsafe (List.ofFn bytes)).take 8)

/-- The stored password, or a new one; fails when a new one cannot be encrypted. -/
def zoneVrrpAuth (env : Environment) (zone : Zone) : Option String :=
  if zone.vrrpAuthEnc.getD "" = "" then env.encryptSecret (vrrpToken (env.tokenBytes zone.id))
  else zone.vrrpAuthEnc

/-- A zone with a VIP needs a router id and an auth password; fill them in once. -/
def ensureZoneVrrp (env : Environment) (zone : Zone) : Option Zone :=
  (zoneVrrpAuth env zone).map fun auth =>
    { zone with
      vrrpRouterId := some (zone.vrrpRouterId.getD (50 + (zone.id % 200 : Nat)))
      vrrpAuthEnc := some auth }

/-! ## Plans -/

structure LbPlan where
  lbId : Nat
  agentId : Nat
  enabled : Bool
  mode : LbMode
  dnsdist : Option (Json Int)
  keepalived : Option (Json Int)
  backends : List BackendTarget

section Plan

variable (env : Environment) (db : Database)

/-- The hosts of the zone's other enabled balancers. -/
def peerAgents (zone : Zone) (lb : LoadBalancer) : List Agent :=
  (db.loadBalancers.filter fun other =>
    other.zoneId = some zone.id ∧ other.enabled ∧ other.id ≠ lb.id).filterMap
      fun other => db.getAgent other.agentId

/-- The keepalived spec of a balancer, if its zone has a VIP. -/
def plannedKeepalived (lb : LoadBalancer) (agent : Agent) : Option (Option (Json Int)) :=
  match lb.zoneId.bind db.getZone with
  | none => some none
  | some zone =>
      if zone.vip.getD "" = "" then some none
      else (ensureZoneVrrp env zone).map fun zone =>
        keepalivedSpec env lb zone agent ((peerAgents db zone lb).map (·.address))
          (desiredBackends env db lb)

/-- The plan of a balancer; there is none without its row or the row of its host,
nor when the zone's password cannot be stored. -/
def lbPlan (lbId : Nat) : Option LbPlan := do
  let lb ← db.getLoadBalancer lbId
  let agent ← db.getAgent lb.agentId
  let backends := desiredBackends env db lb
  let keepalived ← plannedKeepalived env db lb agent
  return {
    lbId := lb.id
    agentId := agent.id
    enabled := lb.enabled
    mode := lb.mode
    dnsdist := if lb.mode = .ipvs then none else some (dnsdistSpec env lb backends)
    keepalived := keepalived
    backends := backends }

variable {env db}

/-- What a plan is made of. -/
theorem exists_of_lbPlan {lbId : Nat} {plan : LbPlan} (h : lbPlan env db lbId = some plan) :
    ∃ lb agent, db.getLoadBalancer lbId = some lb ∧ db.getAgent lb.agentId = some agent ∧
      plan.agentId = agent.id ∧ plan.backends = desiredBackends env db lb ∧
      plan.dnsdist = (if lb.mode = .ipvs then none
        else some (dnsdistSpec env lb (desiredBackends env db lb))) ∧
      plannedKeepalived env db lb agent = some plan.keepalived := by
  obtain ⟨lb, hlb, h⟩ := Option.bind_eq_some_iff.mp h
  obtain ⟨agent, hagent, h⟩ := Option.bind_eq_some_iff.mp h
  obtain ⟨keepalived, hkeepalived, h⟩ := Option.bind_eq_some_iff.mp h
  obtain rfl := Option.some.inj h
  exact ⟨lb, agent, hlb, hagent, rfl, rfl, rfl, hkeepalived⟩

variable (env db)

/-- The parts of a plan are those of its balancer. -/
theorem lbPlan_eq_some {lbId : Nat} {lb : LoadBalancer} {agent : Agent} {plan : LbPlan}
    (hlb : db.getLoadBalancer lbId = some lb) (hagent : db.getAgent lb.agentId = some agent)
    (hplan : lbPlan env db lbId = some plan) :
    plan.dnsdist = (if lb.mode = .ipvs then none
        else some (dnsdistSpec env lb (desiredBackends env db lb))) ∧
      plannedKeepalived env db lb agent = some plan.keepalived := by
  obtain ⟨lb', agent', hlb', hagent', -, -, hdnsdist, hkeepalived⟩ := exists_of_lbPlan hplan
  obtain rfl := Option.some.inj (hlb.symm.trans hlb')
  obtain rfl := Option.some.inj (hagent.symm.trans hagent')
  exact ⟨hdnsdist, hkeepalived⟩

/-- Keepalived is planned only for a zone with a VIP. -/
theorem plannedKeepalived_eq_some {lb : LoadBalancer} {agent : Agent} {raw : Json Int}
    (h : plannedKeepalived env db lb agent = some (some raw)) :
    ∃ zone filled, lb.zoneId.bind db.getZone = some zone ∧ zone.vip.getD "" ≠ "" ∧
      keepalivedSpec env lb filled agent ((peerAgents db filled lb).map (·.address))
        (desiredBackends env db lb) = some raw := by
  unfold plannedKeepalived at h
  split at h
  · cases h
  · rename_i zone hzone
    split at h
    · cases h
    · rename_i hvip
      obtain ⟨filled, -, hbuilt⟩ := Option.map_eq_some_iff.mp h
      exact ⟨zone, filled, hzone, hvip, hbuilt⟩

end Plan

end AdguardAdmin
