import Mathlib.Data.List.Dedup
import Mathlib.Data.List.Sort
import Mathlib.Logic.Function.Basic
import AdguardAdmin.TableIds
import AdguardAdmin.SyncPlan
/-!
# References between tables

The control plane's tables reduced to keys and references: foreign keys, which
SQLite enforces at every statement, and the JSON lists of zone ids, which nothing
enforces.  `Store` is what a committed database can be: its foreign keys hold.
-/

namespace AdguardAdmin.Registry

/-- An `HTTPException`; a failed commit answers 500. -/
structure HttpError where
  status : Nat
  detail : String
  deriving DecidableEq, Repr

/-! ## Rows -/

structure ZoneRow where
  id : Int
  name : String
  slug : String
  deriving DecidableEq, Repr

structure ServerRow where
  id : Int
  zoneId : Option Int
  agentId : Option Int
  deriving DecidableEq, Repr

structure AgentRow where
  id : Int
  zoneId : Option Int
  deriving DecidableEq, Repr

structure BalancerRow where
  id : Int
  zoneId : Option Int
  agentId : Int
  deriving DecidableEq, Repr

structure OverrideRow where
  id : Int
  loadBalancerId : Int
  serverId : Int
  deriving DecidableEq, Repr

structure TokenRow where
  id : Int
  zoneId : Option Int
  serverId : Option Int
  agentId : Option Int
  loadBalancerId : Option Int
  deriving DecidableEq, Repr

/-- The five tables whose rows apply to a scope. -/
inductive RowKind where
  | record
  | upstream
  | forwardZone
  | filterList
  | blockedService
  deriving DecidableEq, Repr

/-- A row with a scope.  Records have no server scope; only they can be managed. -/
structure ScopedRow where
  id : Int
  scope : ConfigScope
  zoneIds : List Int
  serverId : Option Int
  managed : Bool
  deriving DecidableEq, Repr

structure Tables where
  zones : List ZoneRow
  servers : List ServerRow
  agents : List AgentRow
  balancers : List BalancerRow
  overrides : List OverrideRow
  tokens : List TokenRow
  rows : RowKind → List ScopedRow

def RowKind.all : List RowKind := [.record, .upstream, .forwardZone, .filterList, .blockedService]

theorem RowKind.mem_all (kind : RowKind) : kind ∈ RowKind.all := by
  cases kind <;> decide

/-! ## Foreign keys -/

namespace Tables

variable (t : Tables)

/-- `session.get` of each table, as far as its answer is none. -/
def hasZone (id : Int) : Bool := t.zones.any (·.id = id)

def hasServer (id : Int) : Bool := t.servers.any (·.id = id)

def hasAgent (id : Int) : Bool := t.agents.any (·.id = id)

def hasBalancer (id : Int) : Bool := t.balancers.any (·.id = id)

/-- The values of the foreign keys into each table. -/
def zoneRefs : List Int :=
  t.servers.filterMap (·.zoneId) ++ t.agents.filterMap (·.zoneId) ++
    t.balancers.filterMap (·.zoneId) ++ t.tokens.filterMap (·.zoneId)

def serverRefs : List Int :=
  t.tokens.filterMap (·.serverId) ++ t.overrides.map (·.serverId) ++
    RowKind.all.flatMap fun kind => (t.rows kind).filterMap (·.serverId)

def agentRefs : List Int :=
  t.servers.filterMap (·.agentId) ++ t.tokens.filterMap (·.agentId) ++ t.balancers.map (·.agentId)

def balancerRefs : List Int :=
  t.tokens.filterMap (·.loadBalancerId) ++ t.overrides.map (·.loadBalancerId)

/-- What `PRAGMA foreign_keys=ON` makes SQLite check. -/
structure ForeignKeys : Prop where
  zones : ∀ id ∈ t.zoneRefs, t.hasZone id = true
  servers : ∀ id ∈ t.serverRefs, t.hasServer id = true
  agents : ∀ id ∈ t.agentRefs, t.hasAgent id = true
  balancers : ∀ id ∈ t.balancerRefs, t.hasBalancer id = true

/-- Foreign keys hold when each reference names a row. -/
theorem foreignKeys_iff : t.ForeignKeys ↔
    (∀ id ∈ t.zoneRefs, t.hasZone id = true) ∧ (∀ id ∈ t.serverRefs, t.hasServer id = true) ∧
      (∀ id ∈ t.agentRefs, t.hasAgent id = true) ∧
        ∀ id ∈ t.balancerRefs, t.hasBalancer id = true :=
  ⟨fun h => ⟨h.zones, h.servers, h.agents, h.balancers⟩,
    fun ⟨hz, hs, ha, hb⟩ => ⟨hz, hs, ha, hb⟩⟩

instance : Decidable t.ForeignKeys := decidable_of_iff _ t.foreignKeys_iff.symm

end Tables

/-- A committed database. -/
structure Store where
  tables : Tables
  valid : tables.ForeignKeys

/-- Stores are told apart by their tables. -/
theorem Store.ext_tables {s t : Store} (h : s.tables = t.tables) : s = t := by
  cases s
  cases t
  cases h
  rfl

/-- Commit a transaction: all of it, or, with a foreign key violated, none of it. -/
def commit (t : Tables) : Except HttpError Store :=
  if h : t.ForeignKeys then .ok ⟨t, h⟩ else .error ⟨500, "FOREIGN KEY constraint failed"⟩

/-- What is committed is stored. -/
theorem commit_ok {t : Tables} {s : Store} (h : commit t = .ok s) : s.tables = t := by
  unfold commit at h
  split at h
  · exact (Except.ok.inj h) ▸ rfl
  · cases h

theorem commit_of_valid {t : Tables} (h : t.ForeignKeys) : commit t = .ok ⟨t, h⟩ := by
  simp [commit, h]

end AdguardAdmin.Registry
