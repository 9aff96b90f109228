import Mathlib
import AdguardAdmin.Provisioning
/-!
# Editing zones, balancers and tokens

The requests that write the tables balancers and their zones are in.  Creating a
balancer, moving one and asking for one with a token all go through
`validateZoneMode`: one mode per zone, and a VIP on the zone for direct routing.
-/

namespace AdguardAdmin

open GoText TableIds
open Registry (HttpError)

def LbMode.value : LbMode → String
  | .dnsdist => "dnsdist"
  | .ipvs => "ipvs"

/-! ## Checks -/

/-- One mode per zone, and ipvs needs the zone VIP. -/
def validateZoneMode (db : Database) (zone : Zone) (mode : LbMode) (exclude : Option Nat) :
    Except HttpError Unit :=
  if mode = .ipvs ∧ zone.vip.getD "" = "" then
    .error ⟨400, "IPVS direct routing needs a VIP on the zone"⟩
  else
    match db.loadBalancers.find? fun lb =>
      lb.zoneId = some zone.id ∧ lb.mode ≠ mode ∧ exclude ≠ some lb.id with
    | some other =>
        .error ⟨409, "Zone %r already balances in " ++ other.mode.value ++
          " mode; all balancers in a zone share one mode"⟩
    | none => .ok ()

def validateRefs (db : Database) (zoneId agentId : Option Nat) (mode : LbMode)
    (exclude : Option Nat) : Except HttpError Unit :=
  match zoneId with
  | none =>
      .error ⟨400, "A load balancer needs a zone: its backends are the zone's servers"⟩
  | some zid =>
      match db.getZone zid with
      | none => .error ⟨400, "zone_id does not exist"⟩
      | some zone =>
          match agentId.bind db.getAgent with
          | none => .error ⟨400, "agent_id does not exist"⟩
          | some agent =>
              if db.loadBalancers.any fun lb => lb.agentId = agent.id ∧ exclude ≠ some lb.id then
                .error ⟨409, "That host already runs a load balancer"⟩
              else validateZoneMode db zone mode exclude

/-! ## Bodies -/

/-- The columns a balancer request may set; a null leaves the column alone. -/
structure LbFields where
  installMethod : Option InstallMethod
  image : Option String
  listenAddresses : Option (List String)
  policy : Option LbPolicy
  ecs : Option Bool
  cacheEnabled : Option Bool
  cacheMaxEntries : Option Int
  hcName : Option String
  hcIntervalS : Option Int
  hcMaxFailures : Option Int
  hcRise : Option Int
  hcMode : Option HealthCheckMode
  acl : Option (List String)
  vrrpPriority : Option Int
  vipInterface : Option String
  ipvsAlgo : Option IpvsAlgo
  enabled : Option Bool

/-- Set the columns that are given. -/
def LbFields.set (f : LbFields) (lb : LoadBalancer) : LoadBalancer :=
  { lb with
    installMethod := f.installMethod.getD lb.installMethod
    image := f.image.getD lb.image
    listenAddresses := f.listenAddresses.getD lb.listenAddresses
    policy := f.policy.getD lb.policy
    ecs := f.ecs.getD lb.ecs
    cacheEnabled := f.cacheEnabled.getD lb.cacheEnabled
    cacheMaxEntries := f.cacheMaxEntries.getD lb.cacheMaxEntries
    hcName := f.hcName.getD lb.hcName
    hcIntervalS := f.hcIntervalS.getD lb.hcIntervalS
    hcMaxFailures := f.hcMaxFailures.getD lb.hcMaxFailures
    hcRise := f.hcRise.getD lb.hcRise
    hcMode := f.hcMode.getD lb.hcMode
    acl := f.acl.getD lb.acl
    vrrpPriority := f.vrrpPriority.getD lb.vrrpPriority
    vipInterface := f.vipInterface.getD lb.vipInterface
    ipvsAlgo := f.ipvsAlgo.getD lb.ipvsAlgo
    enabled := f.enabled.getD lb.enabled }

structure LoadBalancerCreate extends LbFields where
  zoneId : Option Nat
  agentId : Nat
  mode : Option LbMode

/-- A body that edits a balancer: a reference can be left out, null or a value. -/
structure LoadBalancerUpdate extends LbFields where
  zoneId : Option (Option Nat)
  agentId : Option (Option Nat)
  mode : Option (Option LbMode)

structure ProvisionRequest where
  name : String
  zoneId : Option Nat
  roles : List AgentRole
  method : InstallMethod
  connectAddress : Option String
  agentPort : Option Int
  exposeWebUi : Bool
  vrrpPriority : Int
  lbMode : LbMode
  prune : Bool

/-! ## Requests -/

/-- `session.get` of each table finds the row with the key. -/
theorem getAgent_some {db : Database} {id : Nat} {agent : Agent} (h : db.getAgent id = some agent) :
    agent ∈ db.agents ∧ agent.id = id :=
  ⟨List.mem_of_find?_eq_some h, by simpa using List.find?_some h⟩

/-- A zone that is found is there, with that id. -/
theorem getZone_some {db : Database} {id : Nat} {zone : Zone} (h : db.getZone id = some zone) :
    zone ∈ db.zones ∧ zone.id = id :=
  ⟨List.mem_of_find?_eq_some h, by simpa using List.find?_some h⟩

theorem getLoadBalancer_some {db : Database} {id : Nat} {lb : LoadBalancer}
    (h : db.getLoadBalancer id = some lb) : lb ∈ db.loadBalancers ∧ lb.id = id :=
  ⟨List.mem_of_find?_eq_some h, by simpa using List.find?_some h⟩

namespace ControlPlane

variable (s : ControlPlane)

/-- Write the balancer table.  Every balancer is on an agent that exists. -/
def setBalancers (lbs : List LoadBalancer) (hkeys : (lbs.map (·.id)).Nodup)
    (hhosts : ∀ lb ∈ lbs, lb.agentId ∈ s.db.agentIds) : ControlPlane :=
  { s with
    db := { s.db with loadBalancers := lbs, loadBalancerKeys := hkeys }
    balancerHosts := hhosts }

def setZones (zones : List Zone) (hkeys : (zones.map (·.id)).Nodup) : ControlPlane :=
  { s with db := { s.db with zones := zones, zoneKeys := hkeys } }

/-- A new or edited balancer is stored when its agent exists. -/
def addBalancer (lb : LoadBalancer) (hid : lb.id = nextId (s.db.loadBalancers.map (·.id))) :
    Except HttpError ControlPlane :=
  if h : lb.agentId ∈ s.db.agentIds then
    .ok (s.setBalancers (s.db.loadBalancers ++ [lb]) (nodup_append_nextId s.db.loadBalancerKeys hid)
      fun row hrow => by
        rcases List.mem_append.mp hrow with hold | hnew
        · exact s.balancerHosts row hold
        · exact List.mem_singleton.mp hnew ▸ h)
  else .error ⟨500, "FOREIGN KEY constraint failed"⟩

def putBalancer (lb : LoadBalancer) : Except HttpError ControlPlane :=
  if h : lb.agentId ∈ s.db.agentIds then
    .ok (s.setBalancers (putRow (·.id) lb s.db.loadBalancers) (nodup_putRow s.db.loadBalancerKeys lb)
      fun row hrow => by
        obtain ⟨old, hold, rfl⟩ := List.mem_map.mp hrow
        dsimp only
        split
        · exact h
        · exact s.balancerHosts old hold)
  else .error ⟨500, "FOREIGN KEY constraint failed"⟩

def createLoadBalancer (payload : LoadBalancerCreate) : Except HttpError ControlPlane := do
  let mode := payload.mode.getD .dnsdist
  validateRefs s.db payload.zoneId (some payload.agentId) mode none
  s.addBalancer
    (payload.set (newBalancer (nextId (s.db.loadBalancers.map (·.id))) payload.agentId
      payload.zoneId mode)) rfl

/-- The row an update leaves. -/
def updatedBalancer (lb : LoadBalancer) (data : LoadBalancerUpdate) : LoadBalancer :=
  { data.set lb with
    zoneId := data.zoneId.getD lb.zoneId
    agentId := (data.agentId.getD none).getD lb.agentId
    mode := (data.mode.getD none).getD lb.mode }

def updateLoadBalancer (id : Nat) (data : LoadBalancerUpdate) : Except HttpError ControlPlane :=
  match s.db.getLoadBalancer id with
  | none => .error ⟨404, "Load balancer not found"⟩
  | some lb => do
      if data.zoneId.isSome ∨ data.agentId.isSome ∨ data.mode.isSome then
        validateRefs s.db (data.zoneId.getD lb.zoneId) (data.agentId.getD (some lb.agentId))
          ((data.mode.getD none).getD lb.mode) (some lb.id)
      s.putBalancer (updatedBalancer lb data)

/-- The balancers that are left are on hosts that exist. -/
theorem balancerHosts_filter (p : LoadBalancer → Bool) :
    ∀ lb ∈ s.db.loadBalancers.filter p, lb.agentId ∈ s.db.agentIds :=
  fun lb hlb => s.balancerHosts lb (List.mem_filter.mp hlb).1

/-- The rows `delete_load_balancer` leaves; telling the host is no part of it. -/
def deleteLoadBalancer (id : Nat) : Except HttpError ControlPlane :=
  match s.db.getLoadBalancer id with
  | none => .error ⟨404, "Load balancer not found"⟩
  | some _ =>
      .ok
        { s with
          db := { s.db with
            overrides := s.db.overrides.filter (·.loadBalancerId ≠ id)
            loadBalancers := s.db.loadBalancers.filter (·.id ≠ id)
            loadBalancerKeys := nodup_filter s.db.loadBalancerKeys _ }
          tokens := s.tokens.map fun t =>
            { t with
              loadBalancerId := if t.loadBalancerId = some id then none else t.loadBalancerId }
          tokenKeys := nodup_map_edit s.tokenKeys fun _ => rfl
          balancerHosts := s.balancerHosts_filter _ }

section Zones

variable (env : Environment)

/-- Write a zone that has been committed again, with what VRRP needs filled in if it
has a VIP. -/
def ensureVrrp (zone : Zone) : ControlPlane × Except HttpError Unit :=
  if zone.vip.getD "" = "" then (s, .ok ())
  else
    match ensureZoneVrrp env zone with
    | none => (s, .error ⟨500, "Internal Server Error"⟩)
    | some zone =>
        (s.setZones (putRow (·.id) zone s.db.zones) (nodup_putRow s.db.zoneKeys zone), .ok ())

/-- `others` is what the checks on name and slug answer. -/
def createZone (vip : Option String) (routerId : Option Int) (others : Except HttpError Unit) :
    ControlPlane × Except HttpError Unit :=
  match others with
  | .error e => (s, .error e)
  | .ok () =>
      let zone : Zone := ⟨nextId (s.db.zones.map (·.id)), vip, routerId, none⟩
      (s.setZones (s.db.zones ++ [zone]) (nodup_append_nextId s.db.zoneKeys rfl)).ensureVrrp env zone

/-- The zone an update leaves: a field can be left out, null or a value. -/
def updatedZone (zone : Zone) (vip : Option (Option String)) (routerId : Option (Option Int)) : Zone :=
  { zone with vip := vip.getD zone.vip, vrrpRouterId := routerId.getD zone.vrrpRouterId }

def updateZone (id : Nat) (vip : Option (Option String)) (routerId : Option (Option Int))
    (others : Except HttpError Unit) : ControlPlane × Except HttpError Unit :=
  match s.db.getZone id with
  | none => (s, .error ⟨404, "Zone not found"⟩)
  | some zone =>
      match others with
      | .error e => (s, .error e)
      | .ok () =>
          let zone := updatedZone zone vip routerId
          (s.setZones (putRow (·.id) zone s.db.zones) (nodup_putRow s.db.zoneKeys zone)).ensureVrrp
            env zone

end Zones

/-! ## Tokens -/

/-- What a request for a token is checked for. -/
def validateToken (db : Database) (payload : ProvisionRequest) : Except HttpError Unit :=
  match payload.zoneId with
  | none =>
      if .dnsdist ∈ payload.roles then
        .error ⟨400, "A balancer needs a zone: its backends are the zone's AdGuard servers"⟩
      else .ok ()
  | some zid =>
      match db.getZone zid with
      | none => .error ⟨400, "zone_id does not exist"⟩
      | some zone =>
          if .dnsdist ∈ payload.roles then validateZoneMode db zone payload.lbMode none else .ok ()

/-- `text` and `password` are the random texts the token gets. -/
def createToken (p : Provisioner) (payload : ProvisionRequest) (text password : String) (now : Int) :
    Except HttpError ControlPlane := do
  validateToken s.db payload
  let passwordEnc ← (p.encryptSecret password).elim (.error ⟨500, "Internal Server Error"⟩) .ok
  refuseIf (text ∈ s.tokens.map (·.token)) ⟨500, "UNIQUE constraint failed"⟩
  let t : ProvisioningToken :=
    { id := nextId (s.tokens.map (·.id))
      token := text
      name := payload.name
      zoneId := payload.zoneId
      method := payload.method
      prune := payload.prune
      connectAddress := payload.connectAddress
      adminUsername := "admin"
      adminPasswordEnc := some passwordEnc
      roles := payload.roles
      agentPort := orDefault (payload.agentPort.getD 0) p.agentDefaultPort
      vrrpPriority := payload.vrrpPriority
      exposeWebUi := payload.exposeWebUi
      lbMode := payload.lbMode
      status := .pending
      expiresAt := now + p.tokenTtl
      completedAt := none
      serverId := none
      agentId := none
      loadBalancerId := none }
  return { s with tokens := s.tokens ++ [t], tokenKeys := nodup_append_nextId s.tokenKeys rfl }

variable {s} in
/-- What a request for a token leaves: one more token, with a text of its own. -/
theorem createToken_ok {p : Provisioner} {payload : ProvisionRequest} {text password : String}
    {now : Int} {s' : ControlPlane} (h : s.createToken p payload text password now = .ok s') :
    s'.db = s.db ∧ text ∉ s.tokens.map (·.token) ∧
      ∃ t, t.token = text ∧ t.status = .pending ∧ s'.tokens = s.tokens ++ [t] := by
  unfold createToken at h
  obtain ⟨-, -, h⟩ := bind_ok.mp h
  obtain ⟨enc, -, h⟩ := bind_ok.mp h
  obtain ⟨u, hunused, h⟩ := bind_ok.mp h
  obtain rfl := pure_ok.mp h
  unfold refuseIf at hunused
  split at hunused
  · cases hunused
  · rename_i hfresh
    exact ⟨rfl, hfresh, _, rfl, rfl, rfl⟩

def revoked (t : ProvisioningToken) : ProvisioningToken := { t with status := .revoked }

theorem revoked_id (t : ProvisioningToken) : (revoked t).id = t.id := rfl

/-- `revoke_token`, with nothing else going on. -/
def revokeToken (id : Nat) : Except HttpError ControlPlane :=
  match s.getToken id with
  | none => .error ⟨404, "Token not found"⟩
  | some t => .ok (if t.status = .pending then s.editToken id revoked revoked_id else s)

def removeToken (id : Nat) : ControlPlane :=
  { s with
    tokens := s.tokens.filter (·.id ≠ id)
    tokenKeys := nodup_filter s.tokenKeys _ }

def deleteToken (id : Nat) : Except HttpError ControlPlane :=
  if (s.getToken id).isSome then .ok (s.removeToken id) else .error ⟨404, "Token not found"⟩

end ControlPlane

end AdguardAdmin
