import AdguardAdmin.BoundedGather
import AdguardAdmin.ServerLocks
/-!
# Passes over the fleet

The upgrade pass and the synchronisation pass read which servers are due, and call each of them
from a task of its own, a few at a time.

* `run_updates_reports` — however the tasks interleave, no more servers than the limit are
  upgraded at a time, the pass ends, and it reports each server that was due once, in the order
  of the table;
* `reconcile_servers_reports` — the same of a synchronisation.
-/

namespace AdguardAdmin.Passes

open BoundedGather BoundedGather.Gather RunLaws Updater
open ServerLocks (UpdateOutcome defaultName)

/-! ## Any pass -/

/-- The servers a pass calls, how the calls end, and what is reported of an exception. -/
structure Pass (α : Type) where
  permits : Nat
  serverIds : List Nat
  call : Nat → Except String (Option α)
  raised : Nat → String → α

namespace Pass

variable {α : Type} (p : Pass α)

/-- What the task at an index ends with. -/
def task (i : Nat) : Except String (Option α) :=
  match p.serverIds[i]? with
  | some sid => p.call sid
  | none => .error ""

def gathering (run : List Event) : Gather (Except String (Option α)) :=
  after (step p.task (.error "")) (begin p.permits p.serverIds.length) run

/-- What is reported of a server; nothing, if its row has gone. -/
def report (sid : Nat) : Except String (Option α) → Option α
  | .error e => some (p.raised sid e)
  | .ok item => item

/-- The reports, once all tasks are settled. -/
def reports (run : List Event) : Option (List α) :=
  (p.gathering run).results.map fun settled =>
    (List.zipWith p.report p.serverIds settled).filterMap id

/-- Every event of the run moves a task. -/
def Moves (run : List Event) : Prop :=
  Along (step p.task (.error "")) (fun g e => g.step p.task (.error "") e ≠ g)
    (begin p.permits p.serverIds.length) run

variable {p}

/-- The report of a pass has one entry for each server, in their order. -/
theorem zipWith_report :
    List.zipWith p.report p.serverIds ((List.range p.serverIds.length).map p.task) =
      p.serverIds.map fun sid => p.report sid (p.call sid) := by
  refine List.ext_getElem (by simp) fun i hi _ => ?_
  have hlt : i < p.serverIds.length := by simpa using hi
  simp [task, hlt]

/-- The reports are those of the servers that were called, in their order. -/
theorem reports_eq {run : List Event} (hpermits : 0 < p.permits) (hrun : ∀ i, .cancel i ∉ run)
    (hidle : (p.gathering run).Idle) :
    p.reports run = some (p.serverIds.filterMap fun sid => p.report sid (p.call sid)) := by
  rw [reports, gathering, results_eq hpermits hrun hidle, Option.map_some, zipWith_report,
    List.filterMap_map]
  rfl

/-- Each server at most once, and in order, if every report is about the server that was
called. -/
theorem reported_sublist {key : α → Nat}
    (hown : ∀ sid r, p.report sid (p.call sid) = some r → key r = sid) :
    ((p.serverIds.filterMap fun sid => p.report sid (p.call sid)).map key).Sublist p.serverIds := by
  induction p.serverIds with
  | nil => exact List.Sublist.slnil
  | cons sid rest ih =>
      rw [List.filterMap_cons]
      split
      · exact ih.cons sid
      · next r hr =>
          rw [List.map_cons, hown sid r hr]
          exact ih.cons_cons sid

/-- What a server is reported with: what its call returned, or what is made of an exception. -/
theorem report_iff {sid : Nat} {r : α} :
    p.report sid (p.call sid) = some r ↔
      p.call sid = .ok (some r) ∨ ∃ e, p.call sid = .error e ∧ r = p.raised sid e := by
  cases h : p.call sid with
  | error e => simp [report, eq_comm]
  | ok item => simp [report]

/-- **Each server that is called is reported at most once**, in order, with what its own call
gave. -/
theorem reports_spec {run : List Event} (hpermits : 0 < p.permits) (hrun : ∀ i, .cancel i ∉ run)
    (hidle : (p.gathering run).Idle) {key : α → Nat}
    (hown : ∀ sid r, p.report sid (p.call sid) = some r → key r = sid) :
    ∃ rs, p.reports run = some rs ∧ (rs.map key).Sublist p.serverIds ∧
      ∀ r, r ∈ rs ↔ key r ∈ p.serverIds ∧ p.report (key r) (p.call (key r)) = some r := by
  refine ⟨_, reports_eq hpermits hrun hidle, reported_sublist hown, fun r => ?_⟩
  rw [List.mem_filterMap]
  constructor
  · rintro ⟨sid, hsid, hr⟩
    obtain rfl := hown sid r hr
    exact ⟨hsid, hr⟩
  · exact fun h => ⟨key r, h.1, h.2⟩

end Pass

/-- `max(1, limit)`. -/
def atLeastOne (limit : Int) : Nat := (max 1 limit).toNat

theorem atLeastOne_pos (limit : Int) : 0 < atLeastOne limit := by
  unfold atLeastOne
  omega

/-- `stmt.where(Server.id == only_server_id)`, if one is given. -/
def selects (only : Option Nat) (sid : Nat) : Bool := only.all (· = sid)

/-! ## Upgrades -/

section Upgrades

variable (settings : Settings) (autoUpdateMaxConcurrency : Int) (force : Bool)
  (only : Option Nat) (servers : List (Nat × Row)) (now : Nat)
  (update : Nat → Except String (Option UpdateOutcome))

def dueServerIds : List Nat :=
  if force = false ∧ inMaintenanceWindow settings now = false then []
  else
    ((servers.filter fun s => selects only s.1).filter fun s =>
      if force then worthForcing s.2 else (skipReason settings s.2 now).isNone).map Prod.fst

def updateRaised (sid : Nat) (e : String) : UpdateOutcome :=
  { serverId := sid, serverName := defaultName sid, state := .failed, message := e }

def updates : Pass UpdateOutcome where
  permits := atLeastOne autoUpdateMaxConcurrency
  serverIds :=
    if settings.autoUpdateEnabled = false ∧ force = false then []
    else dueServerIds settings force only servers now
  call := update
  raised := updateRaised

/-- `run_updates`, once all its tasks are settled. -/
def runUpdates (run : List Event) : Option (List UpdateOutcome) :=
  (updates settings autoUpdateMaxConcurrency force only servers now update).reports run

variable {settings force only servers now}

/-- The servers of an update pass are the due ones. -/
theorem mem_updates {sid : Nat} :
    sid ∈ (updates settings autoUpdateMaxConcurrency force only servers now update).serverIds ↔
      ∃ row, (sid, row) ∈ servers ∧ selects only sid = true ∧
        due settings force row now = true := by
  unfold updates dueServerIds due
  dsimp only
  cases force with
  | true => simp [and_comm]
  | false =>
      cases settings.autoUpdateEnabled <;> cases inMaintenanceWindow settings now <;>
        simp [and_comm]

/-- In the order of the table. -/
theorem updates_sublist :
    (updates settings autoUpdateMaxConcurrency force only servers now update).serverIds.Sublist
      (servers.map Prod.fst) := by
  unfold updates dueServerIds
  dsimp only
  split
  · exact List.nil_sublist _
  · split
    · exact List.nil_sublist _
    · exact (List.filter_sublist.trans List.filter_sublist).map _

variable {update}

/-- **Every server that is due is upgraded and reported once**, and no other server: no more than
the limit at a time, in the order of the table, and a task that breaks is a failed upgrade. -/
theorem run_updates_reports (autoUpdateMaxConcurrency : Int)
    (hids : (servers.map Prod.fst).Nodup)
    (hown : ∀ sid o, update sid = .ok (some o) → o.serverId = sid) (run : List Event)
    (hrun : ∀ i, .cancel i ∉ run) :
    let pass := updates settings autoUpdateMaxConcurrency force only servers now update
    (pass.gathering run).inFlight ≤ atLeastOne autoUpdateMaxConcurrency ∧
      (pass.Moves run → run.length ≤ 3 * servers.length) ∧
      ((pass.gathering run).Idle →
        ∃ outcomes,
          runUpdates settings autoUpdateMaxConcurrency force only servers now update run =
            some outcomes ∧
          (outcomes.map (·.serverId)).Sublist (servers.map Prod.fst) ∧
          (outcomes.map (·.serverId)).Nodup ∧
          ∀ o, o ∈ outcomes ↔
            (∃ row, (o.serverId, row) ∈ servers ∧ selects only o.serverId = true ∧
              due settings force row now = true) ∧
            (update o.serverId = .ok (some o) ∨
              ∃ e, update o.serverId = .error e ∧ o = updateRaised o.serverId e)) := by
  intro pass
  have hsublist : pass.serverIds.Sublist (servers.map Prod.fst) :=
    updates_sublist autoUpdateMaxConcurrency update
  refine ⟨inFlight_le _ _ run, fun hmoves => ?_, fun hidle => ?_⟩
  · have hlength := hsublist.length_le
    rw [List.length_map] at hlength
    exact (moves_le hmoves).trans (Nat.mul_le_mul_left 3 hlength)
  · have hkey : ∀ sid o, pass.report sid (pass.call sid) = some o → o.serverId = sid := by
      intro sid o ho
      rcases Pass.report_iff.mp ho with hcall | ⟨e, -, rfl⟩
      · exact hown sid o hcall
      · rfl
    obtain ⟨outcomes, hreports, hkeys, hmem⟩ := Pass.reports_spec
      (atLeastOne_pos autoUpdateMaxConcurrency) hrun hidle hkey
    refine ⟨outcomes, hreports, hkeys.trans hsublist, (hkeys.trans hsublist).nodup hids,
      fun o => (hmem o).trans (and_congr (mem_updates _ _) ?_)⟩
    exact Pass.report_iff

end Upgrades

/-! ## Synchronisation -/

/-- What decides whether a server is synchronised; `ready` is the state that its agent
reported. -/
structure SyncRow where
  enabled : Bool
  agentId : Option Nat
  ready : Bool
  cooldownUntil : Option Nat
  deriving DecidableEq, Repr

section Synchronisation

variable (syncMaxConcurrency : Int) (force : Bool) (only : Option Nat)
  (servers : List (Nat × SyncRow)) (now : Nat)
  (reconcile : Nat → Except String (Option ServerSyncResult))

/-- A server behind an agent waits for its role, and a cooldown is for automatic passes. -/
def dueForSync (row : SyncRow) : Bool :=
  row.enabled && (row.agentId.isNone || row.ready) &&
    (force || !row.cooldownUntil.any (now < ·))

/-- `_due_servers`. -/
def dueServers : List Nat :=
  ((servers.filter fun s => selects only s.1).filter fun s =>
    dueForSync force now s.2).map Prod.fst

def syncRaised (sid : Nat) (e : String) : ServerSyncResult :=
  { serverId := sid, serverName := defaultName sid, status := .error, error := some e }

/-- The part of `reconcile_all` between the agents and the balancers. -/
def synchronisation : Pass ServerSyncResult where
  permits := atLeastOne syncMaxConcurrency
  serverIds := dueServers force only servers now
  call := reconcile
  raised := syncRaised

variable {force only servers now}

/-- The servers of a sync pass are the due ones. -/
theorem mem_dueServers {sid : Nat} :
    sid ∈ dueServers force only servers now ↔
      ∃ row, (sid, row) ∈ servers ∧ selects only sid = true ∧ dueForSync force now row = true := by
  simp [dueServers, and_comm]

theorem dueServers_sublist : (dueServers force only servers now).Sublist (servers.map Prod.fst) :=
  (List.filter_sublist.trans List.filter_sublist).map _

variable {reconcile}

/-- **Every server that is due is synchronised and reported once**, and no other server. -/
theorem reconcile_servers_reports (syncMaxConcurrency : Int)
    (hids : (servers.map Prod.fst).Nodup)
    (hown : ∀ sid r, reconcile sid = .ok (some r) → r.serverId = sid) (run : List Event)
    (hrun : ∀ i, .cancel i ∉ run) :
    let pass := synchronisation syncMaxConcurrency force only servers now reconcile
    (pass.gathering run).inFlight ≤ atLeastOne syncMaxConcurrency ∧
      (pass.Moves run → run.length ≤ 3 * servers.length) ∧
      ((pass.gathering run).Idle →
        ∃ results, pass.reports run = some results ∧
          (results.map (·.serverId)).Sublist (servers.map Prod.fst) ∧
          (results.map (·.serverId)).Nodup ∧
          ∀ r, r ∈ results ↔
            (∃ row, (r.serverId, row) ∈ servers ∧ selects only r.serverId = true ∧
              dueForSync force now row = true) ∧
            (reconcile r.serverId = .ok (some r) ∨
              ∃ e, reconcile r.serverId = .error e ∧ r = syncRaised r.serverId e)) := by
  intro pass
  have hsublist : pass.serverIds.Sublist (servers.map Prod.fst) := dueServers_sublist
  refine ⟨inFlight_le _ _ run, fun hmoves => ?_, fun hidle => ?_⟩
  · have hlength := hsublist.length_le
    rw [List.length_map] at hlength
    exact (moves_le hmoves).trans (Nat.mul_le_mul_left 3 hlength)
  · have hkey : ∀ sid r, pass.report sid (pass.call sid) = some r → r.serverId = sid := by
      intro sid r hr
      rcases Pass.report_iff.mp hr with hcall | ⟨e, -, rfl⟩
      · exact hown sid r hcall
      · rfl
    obtain ⟨results, hreports, hkeys, hmem⟩ := Pass.reports_spec
      (atLeastOne_pos syncMaxConcurrency) hrun hidle hkey
    exact ⟨results, hreports, hkeys.trans hsublist, (hkeys.trans hsublist).nodup hids,
      fun r => (hmem r).trans (and_congr mem_dueServers Pass.report_iff)⟩

end Synchronisation

/-! ### Passes over two servers -/

/-- A server that its agent has ready. -/
def readyRow : SyncRow := ⟨true, some 1, true, none⟩

/-- The second server is switched off, and the third one breaks. -/
def threeRows : List (Nat × SyncRow) :=
  [(1, readyRow), (2, { readyRow with enabled := false }), (3, readyRow)]

def thirdBreaks (sid : Nat) : Except String (Option ServerSyncResult) :=
  if sid = 3 then .error "broken" else .ok (some { serverId := sid, serverName := "dns" })

def bothAtOnce : List Event := [.start 1, .start 0, .finish 0, .finish 1]

/-- Of two servers one breaks, and both are reported. -/
theorem one_of_two_breaks :
    let pass := synchronisation 5 false none threeRows 0 thirdBreaks
    (pass.gathering bothAtOnce).inFlight ≤ 5 ∧ bothAtOnce.length ≤ 9 ∧
      ∃ results, pass.reports bothAtOnce = some results ∧
        syncRaised 3 "broken" ∈ results ∧ (results.map (·.serverId)).Nodup := by
  have hown : ∀ sid r, thirdBreaks sid = .ok (some r) → r.serverId = sid := by
    intro sid r hr
    unfold thirdBreaks at hr
    split at hr
    · cases hr
    · rw [← Option.some.inj (Except.ok.inj hr)]
  have hrun : ∀ i, .cancel i ∉ bothAtOnce := by
    intro i hi
    simp [bothAtOnce] at hi
  obtain ⟨hbound, hmoves, hends⟩ := @reconcile_servers_reports false none threeRows 0
    thirdBreaks 5 (by decide) hown bothAtOnce hrun
  obtain ⟨results, hreports, -, honce, hmem⟩ := hends (by decide +kernel)
  refine ⟨hbound, hmoves (by unfold Pass.Moves; decide +kernel), results, hreports, (hmem _).mpr ?_, honce⟩
  exact ⟨⟨readyRow, by decide, rfl, rfl⟩, .inr ⟨"broken", rfl, rfl⟩⟩

/-- A server with an upgrade waiting. -/
def waitingRow : Row :=
  ⟨true, true, some .bareMetal, none, none, some "v1", some "v2", true, true, false, none, .idle,
    none, none, none⟩

def upgraded (sid : Nat) : UpdateOutcome :=
  { serverId := sid, serverName := "dns", state := .succeeded }

/-- Upgrades at any time of the day. -/
def anyTimeSettings : Settings := ⟨true, .anyTime, 6⟩

/-- The second upgrade waits for the first one. -/
def oneAfterTheOther : List Event := [.start 0, .start 1, .finish 0, .resume 1, .finish 1]

/-- Two servers are upgraded, one after the other. -/
theorem both_upgraded_in_turn :
    let pass := updates anyTimeSettings 1 false none [(1, waitingRow), (2, waitingRow)] 0
      fun sid => .ok (some (upgraded sid))
    (pass.gathering oneAfterTheOther).inFlight ≤ 1 ∧
      ∃ outcomes, pass.reports oneAfterTheOther = some outcomes ∧
        upgraded 1 ∈ outcomes ∧ upgraded 2 ∈ outcomes ∧ (outcomes.map (·.serverId)).Nodup := by
  have hown : ∀ sid o, (Except.ok (some (upgraded sid)) : Except String _) = .ok (some o) →
      o.serverId = sid := by
    intro sid o ho
    rw [← Option.some.inj (Except.ok.inj ho)]
    rfl
  have hrun : ∀ i, .cancel i ∉ oneAfterTheOther := by
    intro i hi
    simp [oneAfterTheOther] at hi
  obtain ⟨hbound, -, hends⟩ := @run_updates_reports anyTimeSettings false none
    [(1, waitingRow), (2, waitingRow)] 0 _ 1 (by decide) hown oneAfterTheOther hrun
  obtain ⟨outcomes, hreports, -, honce, hmem⟩ := hends (by decide +kernel)
  refine ⟨hbound, outcomes, hreports, (hmem _).mpr ?_, (hmem _).mpr ?_, honce⟩
  · exact ⟨⟨waitingRow, by decide, rfl, by decide⟩, .inl rfl⟩
  · exact ⟨⟨waitingRow, by decide, rfl, by decide⟩, .inl rfl⟩

end AdguardAdmin.Passes
