import Mathlib.Data.List.Dedup
import Mathlib.Data.List.Sort
import Mathlib.Data.List.Lex
import Mathlib.Data.Char
import AdguardAdmin.PyText
import AdguardAdmin.Inventory
/-!
# What a server should have

`buildPlan` reads, for one server, everything a pass over it needs: the rewrites,
the DNS lists, the filter lists and the blocked services of the global scope, of
the server's zone and of the server itself.

Rewrites, addresses and services are collected as sets.  Filter lists are not:
every matching row is carried over, also when several name one URL.
-/

namespace AdguardAdmin

inductive RecordScope where
  | global
  | zone
  deriving DecidableEq, Repr

inductive ConfigScope where
  | global
  | zone
  | server
  deriving DecidableEq, Repr

inductive DnsServerKind where
  | upstream
  | bootstrap
  | fallback
  | privateResolvers
  deriving DecidableEq, Repr

inductive FilterKind where
  | blocklist
  | allowlist
  deriving DecidableEq, Repr

/-! ## Rows -/

structure DNSRecord where
  domain : String
  answer : String
  scope : RecordScope
  zoneIds : List Nat
  enabled : Bool
  deriving DecidableEq, Repr

/-- To which servers a configuration row applies. -/
structure Scoped where
  scope : ConfigScope
  zoneIds : List Nat
  serverId : Option Nat
  deriving DecidableEq, Repr

structure Upstream extends Scoped where
  address : String
  kind : DnsServerKind
  enabled : Bool
  deriving DecidableEq, Repr

structure ForwardZone extends Scoped where
  domains : String
  upstreams : String
  enabled : Bool
  deriving DecidableEq, Repr

structure FilterList extends Scoped where
  name : String
  url : String
  kind : FilterKind
  enabled : Bool
  deriving DecidableEq, Repr

structure BlockedService extends Scoped where
  serviceId : String
  enabled : Bool
  deriving DecidableEq, Repr

/-- The tables that say what servers should have. -/
structure ConfigTables where
  records : List DNSRecord
  upstreams : List Upstream
  forwardZones : List ForwardZone
  filterLists : List FilterList
  blockedServices : List BlockedService
  deriving DecidableEq, Repr

/-! ## The plan -/

structure Rewrite where
  domain : String
  answer : String
  deriving DecidableEq, Repr

structure FilterSpec where
  name : String
  url : String
  enabled : Bool
  deriving DecidableEq, Repr

/-- The lists of AdGuard's DNS configuration. -/
inductive DnsList where
  | upstreamDns
  | bootstrapDns
  | fallbackDns
  | localPtrUpstreams
  deriving DecidableEq, Repr

structure ServerPlan where
  serverId : Nat
  name : String
  url : String
  username : Option String
  passwordEnc : Option String
  tlsCert : Option String
  prune : Bool
  manageUpstreams : Bool
  manageFiltering : Bool
  rewrites : List Rewrite
  upstreamLists : List (DnsList × List String)
  filters : FilterKind → List FilterSpec
  blockedServices : List String

def desiredRewritesForServer (db : ConfigTables) (server : Server) : List Rewrite :=
  ((db.records.filter fun rec =>
    rec.enabled && match rec.scope with
      | .global => true
      | .zone => match server.zoneId with
        | none => false
        | some zid => decide (zid ∈ rec.zoneIds)).map fun rec =>
    ⟨rec.domain, rec.answer⟩).dedup

def scopeMatches (item : Scoped) (server : Server) : Bool :=
  match item.scope with
  | .global => true
  | .zone => match server.zoneId with
    | none => false
    | some zid => zid ∈ item.zoneIds
  | .server => item.serverId = some server.id

/-- Without empty and repeated entries, in order of first appearance. -/
def dedupe (entries : List String) : List String :=
  (entries.filter (· ≠ "")).reverse.dedup.reverse

def addressesOfKind (db : ConfigTables) (server : Server) (kind : DnsServerKind) : List String :=
  dedupe ((db.upstreams.filter fun u =>
    u.enabled && u.kind = kind && scopeMatches u.toScoped server &&
      PyText.strip u.address ≠ "").map fun u => PyText.strip u.address)

/-- A forward zone in AdGuard's per-domain syntax. -/
def forwardEntry (domains upstreams : List String) : String :=
  "[/" ++ "/".intercalate domains ++ "/]" ++ " ".intercalate upstreams

def desiredUpstreamsForServer (db : ConfigTables) (server : Server) : List String :=
  let general := addressesOfKind db server .upstream
  let zones := db.forwardZones.filter fun fz =>
    fz.enabled && scopeMatches fz.toScoped server &&
      PyText.words fz.domains ≠ [] && PyText.words fz.upstreams ≠ []
  dedupe (general ++ zones.map fun fz =>
    forwardEntry (PyText.words fz.domains) (PyText.words fz.upstreams))

def filtersForServer (db : ConfigTables) (server : Server) (kind : FilterKind) :
    List FilterList :=
  db.filterLists.filter fun f =>
    f.kind = kind && scopeMatches f.toScoped server && PyText.strip f.url ≠ ""

/-- Python's `sorted` of a set of texts. -/
def sortedSet (ids : List String) : List String :=
  ids.dedup.insertionSort fun a b => a.toList ≤ b.toList

def desiredBlockedServicesForServer (db : ConfigTables) (server : Server) : List String :=
  sortedSet ((db.blockedServices.filter fun r =>
    r.enabled && scopeMatches r.toScoped server && PyText.strip r.serviceId ≠ "").map fun r =>
      PyText.strip r.serviceId)

/-- `build_plan`. -/
def buildPlan (db : ConfigTables) (server : Server) : ServerPlan where
  serverId := server.id
  name := server.name
  url := server.url
  username := server.username
  passwordEnc := server.passwordEnc
  tlsCert := server.tlsCert
  prune := server.prune
  manageUpstreams := server.manageUpstreams
  manageFiltering := server.manageFiltering
  rewrites := desiredRewritesForServer db server
  upstreamLists :=
    if server.manageUpstreams then
      [(.upstreamDns, desiredUpstreamsForServer db server),
        (.bootstrapDns, addressesOfKind db server .bootstrap),
        (.fallbackDns, addressesOfKind db server .fallback),
        (.localPtrUpstreams, addressesOfKind db server .privateResolvers)]
    else []
  filters := fun kind =>
    if server.manageFiltering then
      (filtersForServer db server kind).map fun f => ⟨f.name, f.url, f.enabled⟩
    else []
  blockedServices :=
    if server.manageFiltering then desiredBlockedServicesForServer db server else []

@[simp] theorem mem_sortedSet {ids : List String} {id : String} :
    id ∈ sortedSet ids ↔ id ∈ ids := by
  simp [sortedSet]

end AdguardAdmin
