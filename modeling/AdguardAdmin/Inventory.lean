import Mathlib.Data.List.Nodup
import AdguardAdmin.JsonValue
/-!
# The control plane's database

The rows the spec builders read, and the queries they run.  A table is a list in
row order whose primary keys are distinct.
-/

namespace AdguardAdmin

inductive InstallMethod where
  | docker
  | bareMetal
  deriving DecidableEq, Repr

inductive LbMode where
  | dnsdist
  | ipvs
  deriving DecidableEq, Repr

inductive IpvsAlgo where
  | rr
  | wrr
  | lc
  | wlc
  | sh
  deriving DecidableEq, Repr

inductive LbPolicy where
  | leastOutstanding
  | roundrobin
  | wrandom
  | whashed
  | firstAvailable
  deriving DecidableEq, Repr

inductive HealthCheckMode where
  | auto
  | lazy
  deriving DecidableEq, Repr

def InstallMethod.value : InstallMethod → String
  | .docker => "docker"
  | .bareMetal => "bare_metal"

def IpvsAlgo.value : IpvsAlgo → String
  | .rr => "rr"
  | .wrr => "wrr"
  | .lc => "lc"
  | .wlc => "wlc"
  | .sh => "sh"

def LbPolicy.value : LbPolicy → String
  | .leastOutstanding => "leastOutstanding"
  | .roundrobin => "roundrobin"
  | .wrandom => "wrandom"
  | .whashed => "whashed"
  | .firstAvailable => "firstAvailable"

def HealthCheckMode.value : HealthCheckMode → String
  | .auto => "auto"
  | .lazy => "lazy"

/-! ## Rows -/

structure Zone where
  id : Nat
  vip : Option String
  vrrpRouterId : Option Int
  vrrpAuthEnc : Option String
  deriving DecidableEq, Repr

structure Agent where
  id : Nat
  address : String
  deriving DecidableEq, Repr

structure Server where
  id : Nat
  name : String
  url : String
  username : Option String
  passwordEnc : Option String
  zoneId : Option Nat
  enabled : Bool
  agentId : Option Nat
  dnsPort : Int
  exposeWebUi : Bool
  installMethod : Option InstallMethod
  tlsCert : Option String
  prune : Bool
  manageUpstreams : Bool
  manageFiltering : Bool
  deriving DecidableEq, Repr

structure LoadBalancer where
  id : Nat
  zoneId : Option Nat
  agentId : Nat
  enabled : Bool
  installMethod : InstallMethod
  image : String
  listenAddresses : List String
  policy : LbPolicy
  ecs : Bool
  cacheEnabled : Bool
  cacheMaxEntries : Int
  hcName : String
  hcIntervalS : Int
  hcMaxFailures : Int
  hcRise : Int
  hcMode : HealthCheckMode
  acl : List String
  vrrpPriority : Int
  vipInterface : String
  mode : LbMode
  ipvsAlgo : IpvsAlgo
  deriving DecidableEq, Repr

/-- A per-balancer override for one server. -/
structure LoadBalancerBackend where
  loadBalancerId : Nat
  serverId : Nat
  enabled : Bool
  weight : Int
  order : Int
  deriving DecidableEq, Repr

/-- The tables, each with its primary key. -/
structure Database where
  zones : List Zone
  agents : List Agent
  servers : List Server
  loadBalancers : List LoadBalancer
  overrides : List LoadBalancerBackend
  zoneKeys : (zones.map (·.id)).Nodup
  agentKeys : (agents.map (·.id)).Nodup
  serverKeys : (servers.map (·.id)).Nodup
  loadBalancerKeys : (loadBalancers.map (·.id)).Nodup
  deriving DecidableEq, Repr

/-- What the builders use besides the database: settings, the secret store, the
random bytes of the secrets generated for a zone and the standard library's URL
splitting.  Encryption fails when no key is configured. -/
structure Environment where
  adguardImage : String
  adguardColocatedDnsPort : Int
  dnsdistImage : String
  encryptSecret : String → Option String
  decryptSecret : Option String → Option String
  tokenBytes : Nat → Fin 6 → Fin 256
  hostOfUrl : String → Option String

/-! ## Queries -/

namespace Database

variable (db : Database)

def getZone (id : Nat) : Option Zone := db.zones.find? (·.id = id)

def getAgent (id : Nat) : Option Agent := db.agents.find? (·.id = id)

def getLoadBalancer (id : Nat) : Option LoadBalancer := db.loadBalancers.find? (·.id = id)

/-- True when this host runs a dnsdist balancer, which owns port 53 and pushes
the co-located AdGuard to loopback. -/
def zoneHasBalancerOnAgent (agentId : Nat) : Bool :=
  db.loadBalancers.any fun lb => lb.agentId = agentId ∧ lb.enabled ∧ lb.mode = .dnsdist

/-- The balancing mode of a zone: that of its first balancer, enabled or not. -/
def zoneMode (zoneId : Option Nat) : Option LbMode :=
  match zoneId with
  | none => none
  | some zid => (db.loadBalancers.find? (·.zoneId = some zid)).map (·.mode)

/-- Two rows of the server table with one key are one row. -/
theorem server_eq_of_id_eq {s t : Server} (hs : s ∈ db.servers) (ht : t ∈ db.servers)
    (hid : s.id = t.id) : s = t :=
  List.inj_on_of_nodup_map db.serverKeys hs ht hid

/-- A zone has a balancer on an agent when one of its balancers is there. -/
theorem zoneHasBalancerOnAgent_iff {agentId : Nat} :
    db.zoneHasBalancerOnAgent agentId = true ↔
      ∃ lb ∈ db.loadBalancers, lb.agentId = agentId ∧ lb.enabled = true ∧ lb.mode = .dnsdist := by
  simp [zoneHasBalancerOnAgent]

end Database

/-- The text before the first slash. -/
def beforeSlash (s : String) : String := String.ofList (s.toList.takeWhile (· ≠ '/'))

/-- The VIP of a zone without its prefix, if the zone has one. -/
def zoneVipAddress : Option Zone → Option String
  | none => none
  | some zone =>
      match zone.vip with
      | none => none
      | some vip => if vip = "" then none else some (beforeSlash vip)

end AdguardAdmin
