import Mathlib.Data.Finset.Dedup
import AdguardAdmin.FaultyPrograms
import AdguardAdmin.SyncPlan
/-!
# An AdGuard server and its control API

The server keeps a list of rewrites, block and allow lists keyed by URL, a set of
blocked services and its DNS lists as given.  Adding a list whose URL is present
is refused, and so is changing one whose URL is not.

Every request may also fail on the way.  A client program sees the failure and
the server has not changed.
-/

namespace AdguardAdmin

open Faulty

/-! ## The server -/

structure ListEntry where
  url : String
  name : String
  enabled : Bool
  deriving DecidableEq, Repr

/-- A URL: not empty, and no blanks around it. -/
def IsUrl (url : String) : Prop := PyText.strip url = url ∧ url ≠ ""

instance (url : String) : Decidable (IsUrl url) := inferInstanceAs (Decidable (_ ∧ _))

/-- The lists of one kind, keyed by URL. -/
structure UrlLists where
  entries : List ListEntry
  keys : (entries.map (·.url)).Nodup
  urls : ∀ e ∈ entries, IsUrl e.url

namespace UrlLists

def empty : UrlLists := ⟨[], List.nodup_nil, List.forall_mem_nil _⟩

/-- A new list is enabled. -/
def add? (l : UrlLists) (name url : String) : Option UrlLists :=
  if h : url ∉ l.entries.map (·.url) ∧ IsUrl url then
    some
      { entries := l.entries ++ [⟨url, name, true⟩]
        keys := by
          rw [List.map_append]
          exact List.nodup_append_comm.mpr (List.nodup_cons.mpr ⟨h.1, l.keys⟩)
        urls := by
          intro e he
          rcases List.mem_append.mp he with he | he
          · exact l.urls e he
          · obtain rfl : e = ⟨url, name, true⟩ := by simpa using he
            exact h.2 }
  else none

/-- The entry under a URL with another name and flag. -/
def edit (url name : String) (enabled : Bool) (e : ListEntry) : ListEntry :=
  if e.url = url then ⟨e.url, name, enabled⟩ else e

@[simp] theorem edit_url (url name : String) (enabled : Bool) (e : ListEntry) :
    (edit url name enabled e).url = e.url := by
  unfold edit
  split <;> rfl

def set? (l : UrlLists) (url name : String) (enabled : Bool) : Option UrlLists :=
  if url ∈ l.entries.map (·.url) then
    some
      { entries := l.entries.map (edit url name enabled)
        keys := by
          rw [List.map_map]
          simpa [Function.comp_def] using l.keys
        urls := by
          intro e he
          obtain ⟨old, hold, rfl⟩ := List.mem_map.mp he
          simpa using l.urls old hold }
  else none

def remove (l : UrlLists) (url : String) : UrlLists where
  entries := l.entries.filter (·.url ≠ url)
  keys := l.keys.sublist (List.filter_sublist.map _)
  urls := fun e he => l.urls e (List.mem_filter.mp he).1

end UrlLists

/-- A failed request, with the HTTP status and the hint of a rate limit. -/
structure AdGuardError where
  message : String
  statusCode : Option Nat
  retryAfter : Option Nat
  deriving DecidableEq, Repr

/-- What `/control/version.json` answers. -/
structure VersionInfo where
  newVersion : Option String
  canAutoupdate : Bool
  disabled : Bool
  deriving DecidableEq, Repr

structure AdGuard where
  version : Option String
  versionInfo : VersionInfo
  rewrites : List Rewrite
  dns : DnsList → List String
  usePrivatePtrResolvers : Bool
  lists : FilterKind → UrlLists
  filteringEnabled : Bool
  interval : Option Nat
  blockedIds : List String
  schedule : Option String

/-- A server on which nothing has been set up. -/
def AdGuard.blank : AdGuard where
  version := none
  versionInfo := ⟨none, false, false⟩
  rewrites := []
  dns := fun _ => []
  usePrivatePtrResolvers := false
  lists := fun _ => .empty
  filteringEnabled := true
  interval := none
  blockedIds := []
  schedule := none

/-! ## Requests -/

inductive Call where
  | status
  | versionCheck
  | listRewrites
  | addRewrite (r : Rewrite)
  | deleteRewrite (r : Rewrite)
  | dnsInfo
  | setDnsConfig (payload : List (DnsList × List String)) (usePrivatePtrResolvers : Bool)
  | filteringStatus
  | addUrl (name url : String) (kind : FilterKind)
  | setUrl (url name : String) (enabled : Bool) (kind : FilterKind)
  | removeUrl (url : String) (kind : FilterKind)
  | filteringConfig (enabled : Bool) (interval : Nat)
  | blockedServicesGet
  | blockedServicesUpdate (ids : List String) (schedule : Option String)
  deriving DecidableEq, Repr

inductive SyncStatus where
  | unknown
  | online
  | offline
  | error
  | provisioning
  deriving DecidableEq, Repr

structure ServerSyncResult where
  serverId : Nat
  serverName : String
  status : SyncStatus := .unknown
  added : List String := []
  deleted : List String := []
  upstreamsChanged : Bool := false
  filteringChanged : Bool := false
  error : Option String := none
  version : Option String := none
  deriving DecidableEq, Repr

/-- The columns a pass writes back. -/
structure ServerUpdates where
  status : SyncStatus := .unknown
  inSync : Bool := false
  version : Option String := none
  latestVersion : Option String := none
  updateAvailable : Bool := false
  canAutoupdate : Bool := false
  updateCheckDisabled : Bool := false
  lastError : Option String := none
  lastSeen : Option Nat := none
  lastSynced : Option Nat := none
  cooldownUntil : Option Nat := none
  clearCooldown : Bool := false
  deriving DecidableEq, Repr

/-- The server, the changes requested so far, whether a request has failed, and
what the pass has to report so far. -/
structure Exchange where
  server : AdGuard
  mutations : List Call
  failed : Bool
  result : ServerSyncResult
  updates : ServerUpdates

/-- A program of requests. -/
abbrev Client := Prog Call Exchange

namespace Client

/-- A request that reads. -/
def get {α : Type} (call : Call) (answer : AdGuard → α) : Client α := do
  Prog.command call id
  Prog.read fun w => answer w.server

/-- A request for a change goes out, however it ends. -/
def request (call : Call) : Client Unit :=
  Prog.update fun w => { w with mutations := w.mutations ++ [call] }

/-- A request that changes the server. -/
def change (call : Call) (effect : AdGuard → AdGuard) : Client Unit := do
  request call
  Prog.command call fun w => { w with server := effect w.server }

/-- A request that the server may refuse. -/
def changeList (path : String) (call : Call) (kind : FilterKind)
    (edit : UrlLists → Option UrlLists) : Client Unit := do
  match edit ((← Prog.read (·.server)).lists kind) with
  | none => do
      request call
      Prog.refuse ("POST " ++ path ++ " -> HTTP 400")
  | some l => change call fun s => { s with lists := Function.update s.lists kind l }

def addRewrite (r : Rewrite) : Client Unit :=
  change (.addRewrite r) fun s => { s with rewrites := s.rewrites ++ [r] }

def deleteRewrite (r : Rewrite) : Client Unit :=
  change (.deleteRewrite r) fun s => { s with rewrites := s.rewrites.filter (· ≠ r) }

/-- The lists of a partial configuration are stored as given. -/
def setDnsConfig (payload : List (DnsList × List String)) (usePrivatePtrResolvers : Bool) :
    Client Unit :=
  change (.setDnsConfig payload usePrivatePtrResolvers) fun s =>
    { s with
      dns := fun key => (payload.lookup key).getD (s.dns key)
      usePrivatePtrResolvers := usePrivatePtrResolvers || s.usePrivatePtrResolvers }

def filteringAddUrl (name url : String) (kind : FilterKind) : Client Unit :=
  changeList "/control/filtering/add_url" (.addUrl name url kind) kind fun l => l.add? name url

def filteringSetUrl (url name : String) (enabled : Bool) (kind : FilterKind) : Client Unit :=
  changeList "/control/filtering/set_url" (.setUrl url name enabled kind) kind fun l =>
    l.set? url name enabled

def filteringRemoveUrl (url : String) (kind : FilterKind) : Client Unit :=
  changeList "/control/filtering/remove_url" (.removeUrl url kind) kind fun l => some (l.remove url)

def filteringConfig (enabled : Bool) (interval : Nat) : Client Unit :=
  change (.filteringConfig enabled interval) fun s =>
    { s with filteringEnabled := enabled, interval := some interval }

def blockedServicesUpdate (ids : List String) (schedule : Option String) : Client Unit :=
  change (.blockedServicesUpdate ids schedule) fun s =>
    { s with blockedIds := ids, schedule := schedule.or s.schedule }

/-- A failure the program goes on after. -/
def noteFailure : Client Unit := Prog.update fun w => { w with failed := true }

section Inversion

variable {f : Script Call} {w t : Exchange}

/-- A read that ends well answers with the server. -/
theorem get_ok {α : Type} {call : Call} {answer : AdGuard → α} {a : α} :
    (get call answer).run f w = (.ok a, t) ↔ f call = .done ∧ a = answer w.server ∧ t = w := by
  simp only [get, Prog.bind_ok, Prog.command_ok, Prog.read_ok, exists_const, id_eq]
  constructor
  · rintro ⟨u, ⟨hdone, rfl⟩, rfl, rfl⟩
    exact ⟨hdone, rfl, rfl⟩
  · rintro ⟨hdone, rfl, rfl⟩
    exact ⟨_, ⟨hdone, rfl⟩, rfl, rfl⟩

/-- A request that reads changes nothing, whether it fails or not. -/
theorem get_state {α : Type} (call : Call) (answer : AdGuard → α) :
    ((get call answer).run f w).2 = w := by
  unfold Client.get Prog.command Prog.tearable
  rw [Prog.bind_run]
  cases hcall : f call <;> simp [hcall, Prog.read]

/-- A read that fails has not been answered. -/
theorem get_failed {α : Type} {call : Call} {answer : AdGuard → α} {e : Failure Call}
    (h : (get call answer).run f w = (.error e, t)) : f call ≠ .done ∧ t = w := by
  constructor
  · intro hdone
    have hok : (get call answer).run f w = (.ok (answer w.server), w) :=
      get_ok.mpr ⟨hdone, rfl, rfl⟩
    rw [h] at hok
    cases hok
  · have hstate := get_state (f := f) (w := w) call answer
    rwa [h] at hstate

/-- A change that ends well has taken effect, and nothing else has. -/
theorem change_ok {call : Call} {effect : AdGuard → AdGuard} {u : Unit}
    (h : (change call effect).run f w = (.ok u, t)) :
    t.server = effect w.server ∧ t.failed = w.failed := by
  obtain ⟨_, u, hrequest, h⟩ := Prog.bind_ok.mp h
  obtain rfl := Prog.update_ok.mp hrequest
  obtain ⟨-, rfl⟩ := Prog.command_ok.mp h
  exact ⟨rfl, rfl⟩

/-- A list that was changed is the edited one. -/
theorem changeList_ok {path : String} {call : Call} {kind : FilterKind}
    {edit : UrlLists → Option UrlLists}
    {u : Unit} (h : (changeList path call kind edit).run f w = (.ok u, t)) :
    ∃ l, edit (w.server.lists kind) = some l ∧
      t.server = { w.server with lists := Function.update w.server.lists kind l } ∧
      t.failed = w.failed := by
  obtain ⟨s, v, hread, h⟩ := Prog.bind_ok.mp h
  obtain ⟨rfl, rfl⟩ := Prog.read_ok.mp hread
  cases hedit : edit (v.server.lists kind) with
  | none =>
      rw [hedit] at h
      obtain ⟨_, u, -, h⟩ := Prog.bind_ok.mp h
      exact (Prog.refuse_ok.mp h).elim
  | some l =>
      rw [hedit] at h
      obtain ⟨hserver, hfailed⟩ := change_ok h
      exact ⟨l, rfl, hserver, hfailed⟩

end Inversion

section Rules

variable {f : Script Call} {P : Exchange → Prop} {Q : Unit → Exchange → Prop} {E : Exchange → Prop}

/-- A requested change takes effect, or it does not and ends the program. -/
theorem ends_change {call : Call} {effect : AdGuard → AdGuard}
    (hdone : ∀ w, P w →
      Q () { w with server := effect w.server, mutations := w.mutations ++ [call] })
    (hfailed : ∀ w, P w → E { w with mutations := w.mutations ++ [call] }) :
    Prog.Ends f P (change call effect) Q E := by
  intro w hw
  unfold change request Prog.command Prog.tearable Prog.update
  rw [Prog.bind_run]
  dsimp only
  cases f call with
  | done => exact hdone w hw
  | failed => exact hfailed w hw
  | torn => exact hfailed w hw

/-- A request that the server may refuse has changed the lists of one kind, or nothing. -/
theorem ends_changeList {path : String} {call : Call} {kind : FilterKind}
    {edit : UrlLists → Option UrlLists}
    (hdone : ∀ w l, P w → edit (w.server.lists kind) = some l →
      Q () { w with
        server := { w.server with lists := Function.update w.server.lists kind l }
        mutations := w.mutations ++ [call] })
    (hfailed : ∀ w, P w → E { w with mutations := w.mutations ++ [call] }) :
    Prog.Ends f P (changeList path call kind edit) Q E := by
  intro w hw
  unfold changeList
  rw [Prog.bind_run]
  unfold Prog.read
  dsimp only
  cases hedit : edit (w.server.lists kind) with
  | none => exact hfailed w hw
  | some l =>
      have hchange : Prog.Ends f (fun u => u = w)
          (change call fun s => { s with lists := Function.update s.lists kind l }) Q E :=
        ends_change (fun u hu => hu ▸ hdone w l hw hedit) fun u hu => hu ▸ hfailed w hw
      exact hchange w rfl

end Rules

end Client

end AdguardAdmin
