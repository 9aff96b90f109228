import Mathlib.Data.List.Sort
import AdguardAdmin.Inventory
import AdguardAdmin.PyText
/-!
# Spec builders

The functions that derive the role specs from database rows.  A spec is a JSON
value with integer numbers; an absent or zero column falls back to the default
the builder names, as Python's `or` does.
-/

namespace AdguardAdmin

/-! ## Backend names -/

def isSafeChar (c : Char) : Bool :=
  c.isAlphanum ∨ c = '_' ∨ c = '.' ∨ c = '-'

/-- Replace every run of other characters by one hyphen. -/
def hyphenate : List Char → List Char
  | [] => []
  | [c] => [if isSafeChar c then c else '-']
  | c :: d :: rest =>
      if isSafeChar c then c :: hyphenate (d :: rest)
      else if isSafeChar d then '-' :: hyphenate (d :: rest)
      else hyphenate (d :: rest)

/-- The safe text a backend name starts with. -/
def backendBase (serverName : String) : List Char :=
  let base := PyText.stripBy (fun c => c = '-' ∨ c = '.')
    (hyphenate (PyText.strip serverName).toList)
  if base = [] then "server".toList else base

/-- A dnsdist backend name derived from a server: safe characters, unique by id. -/
def backendNameFor (serverName : String) (serverId : Nat) : String :=
  String.ofList ((backendBase serverName).take 50 ++ '-' :: Nat.toDigits 10 serverId)

/-! ## Backends of a balancer -/

structure BackendTarget where
  serverId : Nat
  serverName : String
  name : String
  address : String
  port : Int
  enabled : Bool
  weight : Int
  order : Int
  deriving DecidableEq, Repr

/-- `x or default` on integers. -/
def orDefault (x default : Int) : Int := if x = 0 then default else x

/-- `xs or default` on texts. -/
def orText (s default : String) : String := if s = "" then default else s

section Backends

variable (env : Environment) (db : Database) (lb : LoadBalancer)

/-- Where a balancer dials a server; `none` when its host row is gone. -/
def backendEndpoint (s : Server) : Option (String × Int) :=
  match s.agentId with
  | some agentId =>
      (db.getAgent agentId).map fun agent =>
        if lb.mode = .ipvs then (agent.address, 53)
        else if agentId = lb.agentId then ("127.0.0.1", env.adguardColocatedDnsPort)
        else (agent.address,
          if db.zoneHasBalancerOnAgent agent.id then env.adguardColocatedDnsPort
          else orDefault s.dnsPort 53)
  | none =>
      some ((env.hostOfUrl s.url).getD "",
        if lb.mode = .ipvs then 53 else orDefault s.dnsPort 53)

/-- The override row of a server; the last one wins. -/
def overrideOf (s : Server) : Option LoadBalancerBackend :=
  (db.overrides.filter (·.loadBalancerId = lb.id)).reverse.find? (·.serverId = s.id)

def backendTarget (s : Server) : Option BackendTarget :=
  match backendEndpoint env db lb s with
  | none => none
  | some (address, port) =>
      if address = "" then none
      else
        let o := overrideOf db lb s
        some {
          serverId := s.id
          serverName := s.name
          name := backendNameFor s.name s.id
          address := address
          port := port
          enabled := (o.map (·.enabled)).getD true
          weight := (o.map (·.weight)).getD 1
          order := (o.map (·.order)).getD 1 }

/-- The enabled servers of a zone in name order. -/
def zoneServers (zoneId : Nat) : List Server :=
  (db.servers.filter fun s => s.zoneId = some zoneId ∧ s.enabled).insertionSort
    (fun a b => a.name ≤ b.name)

/-- Enabled AdGuard servers in the balancer's zone, with overrides applied. -/
def desiredBackends : List BackendTarget :=
  match lb.zoneId with
  | none => []
  | some zoneId => (zoneServers db zoneId).filterMap (backendTarget env db lb)

/-- What a target is made of. -/
theorem backendTarget_eq_some {env : Environment} {db : Database} {lb : LoadBalancer} {s : Server}
    {b : BackendTarget} (h : backendTarget env db lb s = some b) :
    backendEndpoint env db lb s = some (b.address, b.port) ∧ b.address ≠ "" ∧ b.serverId = s.id ∧
      b.name = backendNameFor s.name s.id ∧
      b.weight = ((overrideOf db lb s).map (·.weight)).getD 1 ∧
      b.order = ((overrideOf db lb s).map (·.order)).getD 1 := by
  unfold backendTarget at h
  cases hendpoint : backendEndpoint env db lb s with
  | none => simp [hendpoint] at h
  | some endpoint =>
      obtain ⟨address, port⟩ := endpoint
      rw [hendpoint] at h
      by_cases hempty : address = ""
      · simp [hempty] at h
      · simp only [hempty, if_false, Option.some.injEq] at h
        subst h
        exact ⟨rfl, hempty, rfl, rfl, rfl, rfl⟩

/-- A target comes from an enabled server of the balancer's zone. -/
theorem mem_desiredBackends {env : Environment} {db : Database} {lb : LoadBalancer}
    {b : BackendTarget} (hb : b ∈ desiredBackends env db lb) :
    ∃ s ∈ db.servers, lb.zoneId.isSome ∧ s.zoneId = lb.zoneId ∧ s.enabled = true ∧
      backendTarget env db lb s = some b := by
  unfold desiredBackends at hb
  cases hzone : lb.zoneId with
  | none => simp [hzone] at hb
  | some zoneId =>
      rw [hzone] at hb
      obtain ⟨s, hs, htarget⟩ := List.mem_filterMap.mp hb
      simp only [zoneServers, List.mem_insertionSort, List.mem_filter, decide_eq_true_eq] at hs
      exact ⟨s, hs.1, rfl, hs.2.1, hs.2.2, htarget⟩

end Backends

/-! ## Specs -/

/-- The AdGuard spec for a server that lives on an agent. -/
structure AdguardSpec where
  enabled : Bool
  installMethod : InstallMethod
  image : String
  network : String
  webBind : String
  webPort : Int
  dnsBind : List String
  dnsPort : Int
  adminUsername : String
  adminPassword : String
  deriving DecidableEq, Repr

def adguardSpec (env : Environment) (s : Server) (colocated : Bool) (password : Option String)
    (ipvs : Bool) : AdguardSpec where
  enabled := s.enabled
  installMethod := s.installMethod.getD .docker
  image := env.adguardImage
  network := "host"
  webBind := if s.exposeWebUi then "0.0.0.0" else "127.0.0.1"
  webPort := 3000
  dnsBind := if ipvs then ["0.0.0.0"] else if colocated then ["127.0.0.1"] else ["0.0.0.0"]
  dnsPort :=
    if ipvs then 53 else if colocated then env.adguardColocatedDnsPort else orDefault s.dnsPort 53
  adminUsername := orText (s.username.getD "") "admin"
  adminPassword := password.getD ""

def AdguardSpec.toJson (a : AdguardSpec) : Json Int :=
  .obj [
    ("enabled", .bool a.enabled),
    ("install_method", .str a.installMethod.value),
    ("image", .str a.image),
    ("network", .str a.network),
    ("web_bind", .str a.webBind),
    ("web_port", .num a.webPort),
    ("dns_bind", .strs a.dnsBind),
    ("dns_port", .num a.dnsPort),
    ("admin_username", .str a.adminUsername),
    ("admin_password", .str a.adminPassword)]

def ipvsBackendSpec (zone : Option Zone) (enabled : Bool) : Json Int :=
  let vip := (zoneVipAddress zone).getD ""
  .obj [("enabled", .bool (enabled && vip ≠ "")), ("vip", .str vip)]

def dnsdistBackendJson (b : BackendTarget) : Json Int :=
  .obj [("name", .str b.name), ("address", .str b.address), ("port", .num b.port),
    ("weight", .num b.weight), ("order", .num b.order)]

def dnsdistSpec (env : Environment) (lb : LoadBalancer) (backends : List BackendTarget) :
    Json Int :=
  .obj [
    ("enabled", .bool lb.enabled),
    ("install_method", .str lb.installMethod.value),
    ("image", .str (orText lb.image env.dnsdistImage)),
    ("listen", .strs (if lb.listenAddresses = [] then ["0.0.0.0:53"] else lb.listenAddresses)),
    ("policy", .str lb.policy.value),
    ("ecs", .bool lb.ecs),
    ("cache", .obj [
      ("enabled", .bool lb.cacheEnabled),
      ("max_entries", .num (orDefault lb.cacheMaxEntries 100000))]),
    ("healthcheck", .obj [
      ("name", .str (orText lb.hcName "a.root-servers.net.")),
      ("interval_s", .num (orDefault lb.hcIntervalS 1)),
      ("max_failures", .num (orDefault lb.hcMaxFailures 3)),
      ("rise", .num (orDefault lb.hcRise 2)),
      ("mode", .str lb.hcMode.value)]),
    ("acl", .strs lb.acl),
    ("backends", .arr ((backends.filter (·.enabled)).map dnsdistBackendJson))]

def ipvsBackendJson (b : BackendTarget) : Json Int :=
  .obj [("name", .str b.name), ("address", .str b.address), ("port", .num b.port),
    ("weight", .num b.weight)]

/-- The kernel balancer behind the VIP. -/
def ipvsSpec (lb : LoadBalancer) (zone : Zone) (backends : List BackendTarget) : Json Int :=
  .obj [
    ("enabled", .bool lb.enabled),
    ("vip", .str ((zoneVipAddress (some zone)).getD "")),
    ("ports", .arr [.num 53]),
    ("protocols", .strs ["udp", "tcp"]),
    ("algo", .str lb.ipvsAlgo.value),
    ("backends", .arr ((backends.filter (·.enabled)).map ipvsBackendJson)),
    ("check", .obj [
      ("interval_s", .num (orDefault lb.hcIntervalS 2)),
      ("timeout_s", .num 2),
      ("retry", .num (orDefault lb.hcMaxFailures 2))])]

/-- The other directors of a zone: their addresses without blanks and our own, in order. -/
def keepalivedPeers (agent : Agent) (peers : List String) : List String :=
  (peers.filter fun p => p ≠ "" ∧ p ≠ agent.address).insertionSort (· ≤ ·)

/-- The VRRP spec of a balancer; a zone without a VIP has none. -/
def keepalivedSpec (env : Environment) (lb : LoadBalancer) (zone : Zone) (agent : Agent)
    (peers : List String) (backends : List BackendTarget) : Option (Json Int) :=
  let vip := zone.vip.getD ""
  if vip = "" then none
  else
    some (.obj ([
      ("enabled", .bool lb.enabled),
      ("vip", .str vip),
      ("interface", .str lb.vipInterface),
      ("router_id", .num (orDefault (zone.vrrpRouterId.getD 0) 53)),
      ("priority", .num (orDefault lb.vrrpPriority 100)),
      ("auth_pass", .str (String.ofList
        (((env.decryptSecret zone.vrrpAuthEnc).getD "").toList.take 8))),
      ("peers", .strs (keepalivedPeers agent peers)),
      ("src_ip", .str agent.address),
      ("check_dns", .str (if lb.mode = .ipvs then "" else "127.0.0.1:53"))] ++
      if lb.mode = .ipvs then [("ipvs", ipvsSpec lb zone backends)] else []))

/-- The specs that stand a role down. -/
def disabledDnsdist : Json Int :=
  .obj [("enabled", .bool false), ("backends", .arr []), ("listen", .strs ["0.0.0.0:53"])]

def disabledKeepalived : Json Int :=
  .obj [("enabled", .bool false), ("vip", .str ""), ("interface", .str ""),
    ("router_id", .num 1), ("priority", .num 1), ("auth_pass", .str "x"), ("peers", .arr []),
    ("src_ip", .str ""), ("check_dns", .str "")]

def disabledIpvsBackend : Json Int :=
  .obj [("enabled", .bool false), ("vip", .str "")]

/-! ## The plan of a host -/

/-- Whether a server is a direct-routing backend of its zone. -/
def serverIpvs (db : Database) (s : Server) : Bool :=
  db.zoneMode s.zoneId = some .ipvs ∧ (zoneVipAddress (s.zoneId.bind db.getZone)).getD "" ≠ ""

/-- The specs a host is to run. -/
structure AgentPlan where
  agentId : Nat
  adguard : List (Nat × AdguardSpec)
  ipvsBackend : Option (Json Int)

/-- The AdGuard spec the plan of the server's host holds for it. -/
def plannedAdguard (env : Environment) (db : Database) (agentId : Nat) (s : Server) : AdguardSpec :=
  adguardSpec env s (db.zoneHasBalancerOnAgent agentId) (env.decryptSecret s.passwordEnc)
    (serverIpvs db s)

/-- The desired state of a host; the last direct-routing server decides its VIP. -/
def agentPlan (env : Environment) (db : Database) (agentId : Nat) : Option AgentPlan :=
  match db.getAgent agentId with
  | none => none
  | some agent =>
      let servers := db.servers.filter (·.agentId = some agent.id)
      some {
        agentId := agent.id
        adguard := servers.map fun s => (s.id, plannedAdguard env db agent.id s)
        ipvsBackend := ((servers.filter fun s => serverIpvs db s ∧ s.enabled).getLast?).map
          fun s => ipvsBackendSpec (s.zoneId.bind db.getZone) true }

end AdguardAdmin
