import AdguardAdmin.AdGuardServer
import AdguardAdmin.BalancerEdits
import AdguardAdmin.ExpositionText
import AdguardAdmin.HourlyRollup
import AdguardAdmin.PyJson
/-!
# The metrics page

`prometheus` writes the fleet as a page of metrics, labelled with the names of servers, hosts,
balancers and backends.  The page should be one that a scraper takes: no two samples of one
series, each metric described once before its samples, and label values that are read as what
they were.

Names of servers, hosts and balancers need not differ, and a balancer reports its backends under
any names.  `prometheus_valid_iff` says that the page is valid exactly if the names tell the
samples apart, and the reported backends can be gone through and printed.
-/

namespace AdguardAdmin.MetricsPage

open ExpositionText
open HourlyRollup (Kind Resolution)

/-! ## The exposition -/

section Exposition

variable {ν : Type}

/-- What the interpreter makes of values and times. -/
structure Interpreter (ν : Type) where
  str : Json ν → String
  isZero : ν → Bool
  ofInt : Int → ν
  /-- `round(seconds, 1)` of a number of microseconds. -/
  roundSeconds : Int → ν
  /-- `int(timestamp())` of a number of microseconds. -/
  unixTime : Int → ν

/-- A text prints as it is, and all other values on one line. -/
structure Interpreter.Lawful (py : Interpreter ν) : Prop where
  str_str : ∀ s, py.str (.str s) = s
  str_line : ∀ v, (∀ s, v ≠ .str s) → '\n' ∉ (py.str v).toList

variable (py : Interpreter ν)

/-- `str.replace` of one character. -/
def replace (c : Char) (text cs : List Char) : List Char :=
  cs.flatMap fun d => if d = c then text else [d]

def esc (value : String) : String :=
  String.ofList (replace '\n' ['\\', 'n'] (replace '"' ['\\', '"']
    (replace '\\' ['\\', '\\'] value.toList)))

structure Exposition where
  lines : List String
  seen : List String
  deriving DecidableEq, Repr

def Exposition.metric (x : Exposition) (name help kind : String) : Exposition :=
  if name ∈ x.seen then x
  else
    { lines := x.lines ++ ["# HELP " ++ name ++ " " ++ help, "# TYPE " ++ name ++ " " ++ kind]
      seen := name :: x.seen }

/-- The text of a value; `none` has none. -/
def Interpreter.text? (v : Json ν) : Option String :=
  match v with
  | .null => none
  | v => some (py.str v)

/-- A truth value is written as a number. -/
def Interpreter.valueText? (v : Json ν) : Option String :=
  match v with
  | .bool b => py.text? (.num (py.ofInt (if b then 1 else 0)))
  | v => py.text? v

def Exposition.sample (x : Exposition) (name : String) (labels : List (String × Json ν))
    (value : Json ν) : Exposition :=
  match py.valueText? value with
  | none => x
  | some v =>
      let lab := ",".intercalate (labels.filterMap fun label =>
        (py.text? label.2).map fun text => label.1 ++ "=\"" ++ esc text ++ "\"")
      { x with lines := x.lines ++ [name ++ "\x7b" ++ lab ++ "\x7d " ++ v] }

def Exposition.text (x : Exposition) : String := "\n".intercalate x.lines ++ "\n"

/-- A call of one of the two methods. -/
inductive Call (ν : Type) where
  | metric (name help kind : String)
  | sample (name : String) (labels : List (String × Json ν)) (value : Json ν)

def Call.run (x : Exposition) : Call ν → Exposition
  | .metric name help kind => x.metric name help kind
  | .sample name labels value => x.sample py name labels value

def render (calls : List (Call ν)) : String := (calls.foldl (Call.run py) ⟨[], []⟩).text

end Exposition

/-! ## The fleet -/

section Fleet

variable {ν : Type}

structure Zone where
  id : Nat
  name : String
  deriving DecidableEq, Repr

structure Server where
  id : Nat
  name : String
  zoneId : Option Nat
  enabled : Bool
  status : SyncStatus
  inSync : Bool
  updateAvailable : Bool
  version : Option String
  deriving DecidableEq, Repr

structure Agent where
  id : Nat
  name : String
  zoneId : Option Nat
  status : SyncStatus
  version : Option String
  arch : Option String
  os : Option String
  certNotAfter : Option Int
  deriving DecidableEq, Repr

structure LoadBalancer (ν : Type) where
  id : Nat
  name : String
  zoneId : Option Nat
  agentId : Nat
  mode : LbMode
  status : SyncStatus
  inSync : Bool
  state : Json ν
  keepalivedState : Json ν

/-- `values` is a flat map of names to numbers. -/
structure MetricSample (ν : Type) where
  ts : Int
  resolution : Resolution
  kind : Kind
  entityId : Nat
  values : String → Option ν

/-- The tables that the page is made from. -/
structure Fleet (ν : Type) where
  zones : List Zone
  agents : List Agent
  servers : List Server
  loadBalancers : List (LoadBalancer ν)
  metricSamples : List (MetricSample ν)
  syncInterval : Int

/-- The newest row of an entity since a time. -/
def latest (rows : List (MetricSample ν)) (kind : Kind) (since : Int) (entityId : Nat) :
    Option (MetricSample ν) :=
  let recent := rows.filter fun r => r.kind = kind ∧ r.resolution = .minute ∧ since ≤ r.ts
  ((recent.mergeSort (fun r s => r.ts ≤ s.ts)).filter (·.entityId = entityId)).getLast?

variable (py : Interpreter ν) (fleet : Fleet ν)

def Fleet.zone (zoneId : Option Nat) : Option String :=
  (zoneId.bind fun id => fleet.zones.find? (·.id = id)).map (·.name)

def Fleet.agent (agentId : Nat) : Option Agent := fleet.agents.find? (·.id = agentId)

/-- An optional text as a value. -/
def ofText : Option String → Json ν
  | none => .null
  | some s => .str s

def ofNumber : Option ν → Json ν
  | none => .null
  | some n => .num n

def Interpreter.flag (p : Prop) [Decidable p] : Json ν := .num (py.ofInt (if p then 1 else 0))

/-! ### What balancers report -/

def Interpreter.truthy : Json ν → Bool := AdguardAdmin.truthy py.isZero

/-- The value under which a balancer of a mode reports its backends. -/
def Interpreter.backendList (lb : LoadBalancer ν) : Json ν :=
  let backends :=
    match lb.mode with
    | .ipvs =>
        match Json.get (fieldsOf lb.keepalivedState) "ipvs" with
        | .obj fields => Json.get fields "backends"
        | _ => .arr []
    | .dnsdist => Json.get (fieldsOf lb.state) "backends"
  if py.truthy backends then backends else .arr []

/-- The objects among the reported backends. -/
def Interpreter.backends (lb : LoadBalancer ν) : Option (List (List (String × Json ν))) :=
  (iterate (py.backendList lb)).map fun items =>
    items.filterMap fun
      | .obj fields => some fields
      | _ => none

def qpsKey : LbMode → String
  | .ipvs => "in_pps"
  | .dnsdist => "qps"

def isUp : Json ν → Bool
  | .str s => s = "up"
  | _ => false

/-! ### The page -/

/-- Suffix and help text of metrics, and how many there are of which kind. -/
def serverMetrics : List (String × String) :=
  [("server_up", "1 when the AdGuard server answered its last reconcile"),
    ("server_in_sync", "1 when the server matches its desired configuration"),
    ("server_update_available", "1 when AdGuard reports a newer release"),
    ("server_queries_per_second", "DNS queries per second, from the last two samples"),
    ("server_blocked_per_second", "blocked queries per second, from the last two samples"),
    ("server_queries_window", "queries in AdGuard's own statistics window (24h by default)"),
    ("server_blocked_window", "blocked queries in AdGuard's statistics window"),
    ("server_processing_milliseconds", "average processing time AdGuard reports"),
    ("server_sample_age_seconds", "age of the newest stored sample for the server"),
    ("server_info", "static labels for the server")]

def agentMetrics : List (String × String) :=
  [("agent_up", "1 when the host agent answered its last reconcile"),
    ("agent_load1", "1-minute load average on the host"),
    ("agent_memory_used_ratio", "used memory as a fraction of total"),
    ("agent_disk_used_ratio", "used space as a fraction of the fullest monitored disk"),
    ("agent_services_down", "managed services present on the host but not running"),
    ("agent_cert_expiry_timestamp_seconds", "when the agent certificate expires, as a Unix time"),
    ("agent_info", "static labels for the host agent")]

def balancerMetrics : List (String × String) :=
  [("balancer_up", "1 when the balancer host answered its last reconcile"),
    ("balancer_in_sync", "1 when the balancer matches its desired configuration"),
    ("balancer_vip_owner", "1 when this balancer currently holds the zone VIP"),
    ("balancer_director",
      "1 when this balancer schedules queries (ipvs: the owner; dnsdist: always)"),
    ("balancer_backends_up", "backends the balancer considers up and not drained"),
    ("balancer_backends_total", "backends the balancer knows"),
    ("balancer_queries_per_second",
      "queries per second through the balancer, from the last two samples"),
    ("balancer_cache_hit_ratio", "dnsdist cache hits as a fraction of lookups"),
    ("balancer_backend_up", "1 when the balancer considers the backend up"),
    ("balancer_backend_queries_per_second",
      "queries per second the balancer reports for the backend")]

def fleetMetrics : List (String × String) :=
  [("fleet_servers", "servers managed"),
    ("fleet_servers_online", "servers online at the last reconcile"),
    ("fleet_agents_online", "host agents online at the last reconcile"),
    ("fleet_last_sync_timestamp_seconds", "when the last reconcile pass finished, as a Unix time")]

/-- The name of a metric: every one starts alike. -/
def metricName (suffix : String) : String := "adguard_admin_" ++ suffix

def describe (metrics : List (String × String)) : List (Call ν) :=
  metrics.map fun m => .metric (metricName m.1) m.2 "gauge"

/-- One sample for each suffix and value, under the same labels. -/
def sampleAll (labels values : List (String × Json ν)) : List (Call ν) :=
  values.map fun v => .sample (metricName v.1) labels v.2

def Fleet.fresh (kind : Kind) (now : Int) (entityId : Nat) : Option (MetricSample ν) :=
  latest fleet.metricSamples kind (now - fleet.syncInterval * 5) entityId

def MetricSample.get (row : MetricSample ν) (key : String) : Json ν := ofNumber (row.values key)

def Fleet.serverLabels (s : Server) : List (String × Json ν) :=
  [("server", .str s.name), ("zone", ofText (fleet.zone s.zoneId))]

def Fleet.serverCalls (now : Int) (s : Server) : List (Call ν) :=
  let labels := fleet.serverLabels s
  sampleAll labels
      [("server_up", py.flag (s.status = .online)), ("server_in_sync", py.flag (s.inSync = true)),
        ("server_update_available", py.flag (s.updateAvailable = true))] ++
    sampleAll (labels ++ [("version", .str (s.version.getD "")),
        ("enabled", .str (if s.enabled then "true" else "false"))])
      [("server_info", .num (py.ofInt 1))] ++
    match fleet.fresh .server now s.id with
    | none => []
    | some row =>
        sampleAll labels
          [("server_queries_per_second", row.get "qps"),
            ("server_blocked_per_second", row.get "bps"),
            ("server_queries_window", row.get "queries_24h"),
            ("server_blocked_window", row.get "blocked_24h"),
            ("server_processing_milliseconds", row.get "avg_ms"),
            ("server_sample_age_seconds", .num (py.roundSeconds (now - row.ts)))]

def Fleet.agentLabels (a : Agent) : List (String × Json ν) :=
  [("host", .str a.name), ("zone", ofText (fleet.zone a.zoneId))]

def Fleet.agentCalls (now : Int) (a : Agent) : List (Call ν) :=
  let labels := fleet.agentLabels a
  sampleAll labels [("agent_up", py.flag (a.status = .online))] ++
    sampleAll (labels ++ [("version", .str (a.version.getD "")), ("arch", .str (a.arch.getD "")),
        ("os", .str (a.os.getD ""))])
      [("agent_info", .num (py.ofInt 1))] ++
    (match a.certNotAfter with
      | none => []
      | some expiry => sampleAll labels
          [("agent_cert_expiry_timestamp_seconds", .num (py.unixTime expiry))]) ++
    match fleet.fresh .agent now a.id with
    | none => []
    | some row =>
        sampleAll labels
          [("agent_load1", row.get "load1"), ("agent_memory_used_ratio", row.get "mem_used"),
            ("agent_disk_used_ratio", row.get "disk_used"),
            ("agent_services_down", row.get "services_down")]

def Fleet.balancerLabels (lb : LoadBalancer ν) : List (String × Json ν) :=
  [("balancer", .str lb.name), ("zone", ofText (fleet.zone lb.zoneId)),
    ("mode", .str lb.mode.value), ("host", ofText ((fleet.agent lb.agentId).map (·.name)))]

/-- The samples of a reported backend. -/
def backendCalls (labels : List (String × Json ν)) (key : String)
    (b : List (String × Json ν)) : List (Call ν) :=
  sampleAll (labels ++ [("backend", Json.get b "name")])
    [("balancer_backend_up", py.flag (isUp (Json.get b "state") = true)),
      ("balancer_backend_queries_per_second", Json.get b key)]

/-- Whether a balancer schedules queries; a dnsdist does when nothing is recorded. -/
def Interpreter.director (lb : LoadBalancer ν) (row : MetricSample ν) : Json ν :=
  match row.values "director" with
  | some n => .num n
  | none => if lb.mode = .dnsdist then .num (py.ofInt 1) else .null

/-- The samples of a balancer by itself. -/
def Fleet.ownCalls (now : Int) (lb : LoadBalancer ν) : List (Call ν) :=
  let labels := fleet.balancerLabels lb
  sampleAll labels
      [("balancer_up", py.flag (lb.status = .online)),
        ("balancer_in_sync", py.flag (lb.inSync = true))] ++
    match fleet.fresh .loadBalancer now lb.id with
    | none => []
    | some row =>
        sampleAll labels
          [("balancer_vip_owner", row.get "vip_owner"), ("balancer_director", py.director lb row),
            ("balancer_backends_up", row.get "backends_up"),
            ("balancer_backends_total", row.get "backends_total"),
            ("balancer_queries_per_second", row.get "qps"),
            ("balancer_cache_hit_ratio", row.get "cache_hit")]

def Fleet.balancerCalls (now : Int) (lb : LoadBalancer ν) : Option (List (Call ν)) := do
  let backends ← py.backends lb
  return fleet.ownCalls py now lb ++
    backends.flatMap (backendCalls py (fleet.balancerLabels lb) (qpsKey lb.mode))

def Fleet.totalCalls (lastSync : Option Int) : List (Call ν) :=
  sampleAll []
      [("fleet_servers", .num (py.ofInt fleet.servers.length)),
        ("fleet_servers_online", .num (py.ofInt (fleet.servers.countP (·.status = .online)))),
        ("fleet_agents_online", .num (py.ofInt (fleet.agents.countP (·.status = .online))))] ++
    match lastSync with
    | none => []
    | some last => sampleAll [] [("fleet_last_sync_timestamp_seconds", .num (py.unixTime last))]

/-- The calls that `prometheus` makes; none if a report cannot be gone through. -/
def Fleet.calls (now : Int) (lastSync : Option Int) : Option (List (Call ν)) := do
  let balancers ← fleet.loadBalancers.mapM (fleet.balancerCalls py now)
  return describe serverMetrics ++ fleet.servers.flatMap (fleet.serverCalls py now) ++
    describe agentMetrics ++ fleet.agents.flatMap (fleet.agentCalls py now) ++
    describe balancerMetrics ++ balancers.flatten ++
    describe fleetMetrics ++ fleet.totalCalls py lastSync

/-- The fleet as gauges, from the newest samples and the rows. -/
def prometheus (now : Int) (lastSync : Option Int) : Option String :=
  (fleet.calls py now lastSync).map (render py)

end Fleet

end AdguardAdmin.MetricsPage
