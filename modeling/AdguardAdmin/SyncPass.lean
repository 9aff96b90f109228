import AdguardAdmin.AdGuardServer
/-!
# One pass over a server

`applyPlan` compares a plan with what the server answers and requests the
difference: rewrites first, then the DNS lists, then the filter lists, the
filtering engine and the blocked services.  Filter lists are compared with the
answer of one request made before the first of them is changed.
-/

namespace AdguardAdmin

open Faulty Client

/-- What a pass uses besides the plan: Python's `str.lower`, how requests fail,
why no client can be built for a plan, and the clock. -/
structure SyncEnvironment where
  lower : String → String
  network : Call → Option AdGuardError
  clientError : ServerPlan → Option String
  now : Nat

namespace SyncEnvironment

variable (env : SyncEnvironment)

def script : Script Call := fun call => if (env.network call).isSome then .failed else .done

/-- `Rewrite.key`. -/
def key (r : Rewrite) : String × String :=
  (env.lower (PyText.strip r.domain), PyText.strip r.answer)

/-- Keys are equal when both parts are. -/
local instance lawfulKeys : LawfulBEq (String × String) := inferInstance

/-! ## Filter lists -/

/-- The lists of an answer as a dict; of two entries with one key the last stays. -/
def currentLists (l : UrlLists) : List (String × ListEntry) :=
  (l.entries.filter (·.url ≠ "")).map fun e => (PyText.strip e.url, e)

/-- One desired list.  Returns whether anything changed, or would change. -/
def pushFilter (dryRun : Bool) (kind : FilterKind) (current : List (String × ListEntry))
    (f : FilterSpec) : Client Bool :=
  let url := PyText.strip f.url
  match current.reverse.lookup url with
  | none => do
      Prog.onlyIf (dryRun = false) do
        filteringAddUrl f.name url kind
        -- a new list is always enabled
        Prog.onlyIf (f.enabled = false) (filteringSetUrl url f.name false kind)
      return true
  | some cur =>
      if cur.enabled ≠ f.enabled ∨ cur.name ≠ f.name then do
        Prog.onlyIf (dryRun = false) (filteringSetUrl url f.name f.enabled kind)
        return true
      else return false

def pushFilters (dryRun : Bool) (kind : FilterKind) (current : List (String × ListEntry)) :
    List FilterSpec → Client Bool
  | [] => return false
  | f :: rest => do
      let changed ← pushFilter dryRun kind current f
      let later ← pushFilters dryRun kind current rest
      return changed || later

def pruneFilters (dryRun : Bool) (kind : FilterKind) (desiredUrls : List String) :
    List String → Client Bool
  | [] => return false
  | url :: rest =>
      if url ≠ "" ∧ url ∉ desiredUrls then do
        Prog.onlyIf (dryRun = false) (filteringRemoveUrl url kind)
        let _ ← pruneFilters dryRun kind desiredUrls rest
        return true
      else pruneFilters dryRun kind desiredUrls rest

def desiredUrls (fs : List FilterSpec) : List String := fs.map fun f => PyText.strip f.url

def reconcileKind (plan : ServerPlan) (dryRun : Bool) (status : AdGuard) (kind : FilterKind) :
    Client Bool := do
  let current := currentLists (status.lists kind)
  let changed ← pushFilters dryRun kind current (plan.filters kind)
  if plan.prune then
    let pruned ← pruneFilters dryRun kind (desiredUrls (plan.filters kind)) (current.map (·.1))
    return changed || pruned
  else return changed

/-- Make sure the filtering engine itself is on when blocklists are managed. -/
def reconcileEngine (plan : ServerPlan) (dryRun : Bool) (status : AdGuard) : Client Bool :=
  if (plan.filters .blocklist).countP (·.enabled) ≠ 0 ∧ status.filteringEnabled = false then do
    Prog.onlyIf (dryRun = false) (filteringConfig true
      (if status.interval.getD 0 = 0 then 24 else status.interval.getD 0))
    return true
  else return false

/-- The set of services a server should block. -/
def targetServices (plan : ServerPlan) (current : List String) : List String :=
  if plan.prune then plan.blockedServices else current ++ plan.blockedServices

/-- Blocked services.  A failure here does not end the pass. -/
def reconcileServices (plan : ServerPlan) (dryRun : Bool) : Client Bool :=
  if plan.blockedServices = [] then return false
  else do
    match ← Prog.caught (get .blockedServicesGet fun s => (s.blockedIds, s.schedule)) with
    | .error _ => do
        noteFailure
        return false
    | .ok (current, schedule) =>
        let target := targetServices plan current
        if target.toFinset = current.toFinset then return false
        else do
          let sent ← Prog.caught (Prog.onlyIf (dryRun = false)
            (blockedServicesUpdate (sortedSet target) schedule))
          Prog.onlyIf (sent.isOk = false) noteFailure
          return true

/-- Returns whether anything changed, or would change. -/
def reconcileFiltering (plan : ServerPlan) (dryRun : Bool) : Client Bool :=
  if plan.manageFiltering then do
    let status ← get .filteringStatus id
    let blocks ← reconcileKind plan dryRun status .blocklist
    let allows ← reconcileKind plan dryRun status .allowlist
    let engine ← reconcileEngine plan dryRun status
    let services ← reconcileServices plan dryRun
    return blocks || allows || engine || services
  else return false

/-! ## Rewrites and DNS lists -/

def addRewrites : List Rewrite → Client Unit
  | [] => return ()
  | r :: rest => do
      addRewrite r
      addRewrites rest

def deleteRewrites : List Rewrite → Client Unit
  | [] => return ()
  | r :: rest => do
      deleteRewrite r
      deleteRewrites rest

def toAdd (plan : ServerPlan) (current : List Rewrite) : List Rewrite :=
  plan.rewrites.filter fun r => env.key r ∉ current.map env.key

def toDelete (plan : ServerPlan) (current : List Rewrite) : List Rewrite :=
  if plan.prune then current.filter fun r => env.key r ∉ plan.rewrites.map env.key else []

def showRewrite (r : Rewrite) : String := r.domain ++ " -> " ++ r.answer

/-- Returns whether nothing had to be added or deleted. -/
def reconcileRewrites (plan : ServerPlan) (dryRun : Bool) : Client Bool := do
  let current ← get .listRewrites fun s => s.rewrites.dedup
  let added := env.toAdd plan current
  let deleted := env.toDelete plan current
  Prog.onlyIf (dryRun = false) do
    addRewrites added
    deleteRewrites deleted
  Prog.update fun w => { w with result := { w.result with
    added := added.map showRewrite
    deleted := deleted.map showRewrite
    status := .online } }
  return added = [] && deleted = []

/-- The lists that differ from what is set; an empty desired list is not pushed. -/
def dnsPayload (plan : ServerPlan) (info : DnsList → List String) :
    List (DnsList × List String) :=
  plan.upstreamLists.filter fun (key, desired) =>
    desired ≠ [] && (info key).toFinset ≠ desired.toFinset

/-- Returns whether the DNS lists were as desired. -/
def reconcileDns (plan : ServerPlan) (dryRun : Bool) : Client Bool :=
  if plan.manageUpstreams then do
    let info ← get .dnsInfo (·.dns)
    let payload := dnsPayload plan info
    if payload = [] then return true
    else do
      Prog.onlyIf (dryRun = false)
        (setDnsConfig payload (payload.any fun p => p.1 = .localPtrUpstreams))
      return false
  else return true

/-! ## The pass -/

/-- The update check; a failure here does not end the pass. -/
def checkVersion : Client Unit := do
  match ← Prog.caught (get .versionCheck (·.versionInfo)) with
  | .error _ => noteFailure
  | .ok info =>
      let newVersion := PyText.strip (info.newVersion.getD "")
      Prog.update fun w => { w with updates := { w.updates with
        latestVersion := if newVersion = "" then none else some newVersion
        updateAvailable := newVersion ≠ "" && newVersion ≠ w.result.version.getD ""
        canAutoupdate := info.canAutoupdate
        updateCheckDisabled := info.disabled } }

def pass (plan : ServerPlan) (dryRun : Bool) : Client Unit := do
  let version ← get .status (·.version)
  Prog.update fun w => { w with
    result := { w.result with version := version }
    updates := { w.updates with version := version, lastSeen := some env.now } }
  checkVersion
  let rewritesInSync ← env.reconcileRewrites plan dryRun
  let upstreamsInSync ← reconcileDns plan dryRun
  Prog.update fun w => { w with result := { w.result with
    upstreamsChanged := !upstreamsInSync } }
  let filteringChanged ← reconcileFiltering plan dryRun
  Prog.update fun w => { w with
    result := { w.result with filteringChanged := filteringChanged }
    updates := { w.updates with
      status := .online
      inSync := rewritesInSync && upstreamsInSync && !filteringChanged
      lastError := none
      clearCooldown := true
      lastSynced := if dryRun then w.updates.lastSynced else some env.now } }

/-- What is reported when a request ends the pass. -/
def onError (e : AdGuardError) (w : Exchange) : Exchange :=
  let auth := e.statusCode = some 401 ∨ e.statusCode = some 403 ∨ e.statusCode = some 429
  let limited := e.statusCode = some 429
  let secs := if e.retryAfter.getD 0 ≠ 0 then e.retryAfter.getD 0 else if limited then 900 else 300
  let minutes := toString (secs / 60)
  { w with
    failed := true
    result := { w.result with
      status := if auth then .error else .offline
      error := some e.message }
    updates := { w.updates with
      inSync := false
      status := if auth then .error else .offline
      cooldownUntil := if auth then some (env.now + secs) else w.updates.cooldownUntil
      lastError := some (
        if limited then "Auth rate-limited by AdGuard (429); backing off ~" ++ minutes ++
          "m. Check the server's credentials."
        else if auth then "Authentication failed (HTTP " ++ toString (e.statusCode.getD 0) ++
          "); retrying in ~" ++ minutes ++ "m. Check the server's credentials."
        else e.message) } }

/-- The error behind the failure that ended a pass. -/
def errorOf : Failure Call → AdGuardError
  | .command call => (env.network call).getD ⟨"", none, none⟩
  | .refused message => ⟨message, some 400, none⟩

/-- Before the first request. -/
def start (plan : ServerPlan) (server : AdGuard) : Exchange :=
  ⟨server, [], false, { serverId := plan.serverId, serverName := plan.name }, {}⟩

/-- `apply_plan`, and the state it leaves the server in. -/
def applyPlan (plan : ServerPlan) (dryRun : Bool) (server : AdGuard) : Exchange :=
  match env.clientError plan with
  | some message =>
      { start plan server with
        failed := true
        result := { (start plan server).result with status := .error, error := some message }
        updates := { (start plan server).updates with
          status := .error
          lastError := some ("Server configuration error: " ++ message) } }
  | none =>
      match (env.pass plan dryRun).run env.script (start plan server) with
      | (.ok (), w) => w
      | (.error failure, w) => env.onError (env.errorOf failure) w

end SyncEnvironment

end AdguardAdmin
