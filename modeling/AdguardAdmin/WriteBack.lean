import AdguardAdmin.Registry
import AdguardAdmin.RunLaws
import AdguardAdmin.SyncPass
/-!
# What a pass writes back

A pass takes its plan from the row of a server, talks to the server for as long as that
takes, and then writes what it found into the row, whatever that has become.  An edit of
the URL or of the password clears the cooldown in between, so that the server is tried
again; the write-back does not look at it.

* `judged_iff` — in exactly which runs no server is judged by the reply to a URL or to a
  password that it no longer has;
* `fresh_of_undisturbed` — it is enough that neither changes while a pass is under way.
-/

namespace AdguardAdmin.WriteBack

open RunLaws
open Registry (HttpError)

/-! ## Rows -/

/-- A row of the table of servers, with the columns that passes write. -/
structure Row extends Server where
  status : SyncStatus
  inSync : Bool
  lastError : Option String
  version : Option String
  latestVersion : Option String
  updateAvailable : Bool
  canAutoupdate : Bool
  updateCheckDisabled : Bool
  lastSeen : Option Nat
  lastSynced : Option Nat
  cooldownUntil : Option Nat

/-- `apply_updates`, for a row that is there. -/
def applyUpdates (updates : ServerUpdates) (row : Row) : Row :=
  let checked : Bool := updates.latestVersion ≠ none || updates.status = .online
  { row with
    status := updates.status
    inSync := updates.inSync
    lastError := updates.lastError
    version := updates.version.or row.version
    latestVersion := if checked then updates.latestVersion else row.latestVersion
    updateAvailable := if checked then updates.updateAvailable else row.updateAvailable
    canAutoupdate := if checked then updates.canAutoupdate else row.canAutoupdate
    updateCheckDisabled :=
      if checked then updates.updateCheckDisabled else row.updateCheckDisabled
    lastSeen := updates.lastSeen.or row.lastSeen
    lastSynced := updates.lastSynced.or row.lastSynced
    cooldownUntil :=
      if updates.clearCooldown then none else updates.cooldownUntil.or row.cooldownUntil }

/-- How passwords are stored; a password is not stored twice in the same way. -/
structure Secrets where
  encrypt : Nat → String → String
  decrypt : String → Option String

/-- The fields of an edit that are set.  The validator refuses an empty URL; `others` is
what the checks of the zone and of the columns answer. -/
structure ServerUpdate where
  name : Option String
  url : Option String
  username : Option (Option String)
  password : Option String
  zoneId : Option (Option Nat)
  enabled : Option Bool
  prune : Option Bool
  manageUpstreams : Option Bool
  manageFiltering : Option Bool
  installMethod : Option (Option InstallMethod)
  dnsPort : Option Int
  exposeWebUi : Option Bool
  others : Except HttpError Unit
  url_ne : url ≠ some ""

/-- The fields that the agent of a managed host owns. -/
def ServerUpdate.agentField (data : ServerUpdate) : Option String :=
  if data.url ≠ none then some "url"
  else if (data.username.bind id).getD "" ≠ "" then some "username"
  else if data.password.getD "" ≠ "" then some "password"
  else none

/-- What `update_server` stores of an edit.  `own` says that the row's connection is the
operator's to change. -/
def editedRow (secrets : Secrets) (nonce : Nat) (data : ServerUpdate) (own : Bool) (row : Row) :
    Row :=
  let url := if own then data.url else none
  let password := if own then data.password.filter (· ≠ "") else none
  { row with
    name := data.name.getD row.name
    url := match url with
      | some url => String.ofList (PyText.rstripBy (· = '/') url.toList)
      | none => row.url
    username := if own then data.username.getD row.username else row.username
    passwordEnc := match password with
      | some password => some (secrets.encrypt nonce password)
      | none => row.passwordEnc
    zoneId := data.zoneId.getD row.zoneId
    enabled := data.enabled.getD row.enabled
    prune := data.prune.getD row.prune
    manageUpstreams := data.manageUpstreams.getD row.manageUpstreams
    manageFiltering := data.manageFiltering.getD row.manageFiltering
    installMethod := data.installMethod.getD row.installMethod
    dnsPort := data.dnsPort.getD row.dnsPort
    exposeWebUi := data.exposeWebUi.getD row.exposeWebUi
    cooldownUntil :=
      if url ≠ none ∨ password ≠ none then none else row.cooldownUntil }

/-- `update_server`, for a row that is there. -/
def updateServer (secrets : Secrets) (nonce : Nat) (data : ServerUpdate) (row : Row) :
    Except HttpError Row := do
  data.others
  if row.agentId = none then .ok (editedRow secrets nonce data true row)
  else
    match data.agentField with
    | some key =>
        .error ⟨400, key ++ " is managed by the host agent and cannot be changed here"⟩
    | none => .ok (editedRow secrets nonce data false row)

/-! ## Passes -/

/-- A pass between its snapshot and its write-back. -/
structure Pass where
  plan : ServerPlan
  dryRun : Bool

/-- How the server answers a pass. -/
structure Reply where
  env : SyncEnvironment
  server : AdGuard

/-- What a pass has to write back. -/
def Pass.updates (p : Pass) (reply : Reply) : ServerUpdates :=
  (reply.env.applyPlan p.plan p.dryRun reply.server).updates

/-- The rows of the table, and the passes that are under way: one for a server at most, by
the lock of that server. -/
structure State where
  rows : Nat → Option Row
  passes : Nat → Option Pass

inductive Event where
  | create (row : Row)
  | update (id : Nat) (data : ServerUpdate) (nonce : Nat)
  | delete (id : Nat)
  | snapshot (id : Nat) (tables : ConfigTables) (dryRun : Bool)
  | writeBack (id : Nat) (reply : Reply)
  /-- A pass ends without a write-back. -/
  | cancel (id : Nat)

section Runs

variable (secrets : Secrets)

def State.setRow (s : State) (id : Nat) (row : Option Row) : State :=
  { s with rows := Function.update s.rows id row }

def State.setPass (s : State) (id : Nat) (pass : Option Pass) : State :=
  { s with passes := Function.update s.passes id pass }

/-- `update_server`. -/
def requestUpdate (id nonce : Nat) (data : ServerUpdate) (s : State) : Except HttpError State :=
  match s.rows id with
  | none => .error ⟨404, "Server not found"⟩
  | some row => do
      let edited ← updateServer secrets nonce data row
      .ok (s.setRow id (some edited))

/-- The first half of `reconcile_server`, under the lock of the server. -/
def beginPass (id : Nat) (tables : ConfigTables) (dryRun : Bool) (s : State) : State :=
  match s.passes id, s.rows id with
  | none, some row => s.setPass id (some ⟨buildPlan tables row.toServer, dryRun⟩)
  | _, _ => s

/-- The second half; the server may have been deleted while it was talked to. -/
def endPass (id : Nat) (reply : Reply) (s : State) : State :=
  match s.passes id with
  | none => s
  | some pass =>
      match s.rows id with
      | none => s.setPass id none
      | some row => (s.setRow id (some (applyUpdates (pass.updates reply) row))).setPass id none

def step (s : State) : Event → State
  | .create row => if s.rows row.id = none then s.setRow row.id (some row) else s
  | .update id data nonce =>
      match requestUpdate secrets id nonce data s with
      | .ok after => after
      | .error _ => s
  | .delete id => s.setRow id none
  | .snapshot id tables dryRun => beginPass id tables dryRun s
  | .writeBack id reply => endPass id reply s
  | .cancel id => s.setPass id none

/-- The URL and the password of a server. -/
def connection (url : String) (passwordEnc : Option String) : String × Option String :=
  (url, passwordEnc.bind secrets.decrypt)

/-- What a server had when a pass over it made its plan, and has now. -/
def Current (plan : ServerPlan) (row : Row) : Prop :=
  connection secrets plan.url plan.passwordEnc = connection secrets row.url row.passwordEnc

instance (plan : ServerPlan) (row : Row) : Decidable (Current secrets plan row) :=
  inferInstanceAs (Decidable (_ = _))

/-- Status and cooldown of a server. -/
def State.health (s : State) (id : Nat) : Option (SyncStatus × Option Nat) :=
  (s.rows id).map fun row => (row.status, row.cooldownUntil)

/-- The reply to a URL or to a password that the server no longer has makes no difference to
its status and its cooldown; and an edit that changes one of the two clears the cooldown. -/
def Judged (s : State) : Event → Prop
  | .writeBack id reply => ∀ pass row, s.passes id = some pass → s.rows id = some row →
      ¬ Current secrets pass.plan row → ∀ other : Reply,
        (step secrets s (.writeBack id reply)).health id =
          (step secrets s (.writeBack id other)).health id
  | .update id data nonce => ∀ row row', s.rows id = some row →
      (step secrets s (.update id data nonce)).rows id = some row' →
        connection secrets row.url row.passwordEnc ≠ connection secrets row'.url row'.passwordEnc →
          row'.cooldownUntil = none
  | _ => True

/-- A write-back finds the server with the URL and the password that its plan was made with,
or not at all. -/
def Fresh (s : State) : Event → Prop
  | .writeBack id _ => ∀ pass row, s.passes id = some pass → s.rows id = some row →
      Current secrets pass.plan row
  | _ => True

variable {secrets} {s : State}

/-! ## The write-back -/

@[simp] theorem rows_setRow (s : State) (id : Nat) (row : Option Row) :
    (s.setRow id row).rows = Function.update s.rows id row := rfl

@[simp] theorem passes_setRow (s : State) (id : Nat) (row : Option Row) :
    (s.setRow id row).passes = s.passes := rfl

@[simp] theorem rows_setPass (s : State) (id : Nat) (pass : Option Pass) :
    (s.setPass id pass).rows = s.rows := rfl

@[simp] theorem passes_setPass (s : State) (id : Nat) (pass : Option Pass) :
    (s.setPass id pass).passes = Function.update s.passes id pass := rfl

/-- A server that cannot be reached. -/
def unreachable (server : AdGuard) : Reply where
  env := ⟨id, fun _ => some ⟨"GET /control/status failed", none, none⟩, fun _ => none, 0⟩
  server := server

/-- A server that refuses the password. -/
def unauthorized (server : AdGuard) : Reply where
  env := ⟨id, fun _ => some ⟨"GET /control/status -> HTTP 401", some 401, none⟩, fun _ => none, 0⟩
  server := server

theorem updates_unreachable (p : Pass) (server : AdGuard) :
    (p.updates (unreachable server)).status = .offline := rfl

/-- One that refuses the password is in error, and is left alone for a while. -/
theorem updates_unauthorized (p : Pass) (server : AdGuard) :
    (p.updates (unauthorized server)).status = .error ∧
      (p.updates (unauthorized server)).cooldownUntil = some 300 := ⟨rfl, rfl⟩

/-- A write-back sets the health to what the pass found. -/
theorem health_writeBack {id : Nat} {pass : Pass} {row : Row} (hpass : s.passes id = some pass)
    (hrow : s.rows id = some row) (reply : Reply) :
    (step secrets s (.writeBack id reply)).health id =
      some ((pass.updates reply).status,
        if (pass.updates reply).clearCooldown then none
        else (pass.updates reply).cooldownUntil.or row.cooldownUntil) := by
  simp [step, endPass, hpass, hrow, State.health, State.setRow, State.setPass, applyUpdates]

/-- An edit that changes how the server is reached ends the pause. -/
theorem editedRow_cooldown {nonce : Nat} {data : ServerUpdate} {own : Bool} {row : Row}
    (h : connection secrets row.url row.passwordEnc ≠
      connection secrets (editedRow secrets nonce data own row).url
        (editedRow secrets nonce data own row).passwordEnc) :
    (editedRow secrets nonce data own row).cooldownUntil = none := by
  unfold editedRow at h ⊢
  dsimp only at h ⊢
  generalize (if own then data.url else none) = url at h ⊢
  generalize (if own then data.password.filter (· ≠ "") else none) = password at h ⊢
  cases url with
  | some url => simp
  | none =>
      cases password with
      | some password => simp
      | none => exact absurd rfl h

/-- What an edit makes of a row. -/
theorem updateServer_ok {nonce : Nat} {data : ServerUpdate} {row row' : Row}
    (h : updateServer secrets nonce data row = .ok row') :
    ∃ own, row' = editedRow secrets nonce data own row := by
  obtain ⟨_, -, h⟩ := GoText.bind_ok.mp h
  split at h
  · exact ⟨true, (Except.ok.inj h).symm⟩
  · split at h
    · cases h
    · exact ⟨false, (Except.ok.inj h).symm⟩

/-- An update that is taken edits its row. -/
theorem requestUpdate_ok {id nonce : Nat} {data : ServerUpdate} {after : State}
    (h : requestUpdate secrets id nonce data s = .ok after) : ∃ row own, s.rows id = some row ∧
      after = s.setRow id (some (editedRow secrets nonce data own row)) := by
  unfold requestUpdate at h
  split at h
  · cases h
  · next row hrow =>
      obtain ⟨row', hedit, h⟩ := GoText.bind_ok.mp h
      obtain ⟨own, rfl⟩ := updateServer_ok hedit
      exact ⟨row, own, hrow, (Except.ok.inj h).symm⟩

/-- A request to edit a server has edited its row, or nothing. -/
theorem step_update (s : State) (id : Nat) (data : ServerUpdate) (nonce : Nat) :
    step secrets s (.update id data nonce) = s ∨ ∃ row own, s.rows id = some row ∧
      step secrets s (.update id data nonce) =
        s.setRow id (some (editedRow secrets nonce data own row)) := by
  unfold step
  dsimp only
  split
  · next after hafter =>
      obtain ⟨row, own, hrow, rfl⟩ := requestUpdate_ok hafter
      exact .inr ⟨row, own, hrow, rfl⟩
  · exact .inl rfl

/-- An update is always judged by its own row. -/
theorem judged_update (s : State) (id : Nat) (data : ServerUpdate) (nonce : Nat) :
    Judged secrets s (.update id data nonce) := by
  intro row row' hrow hrow' hchanged
  rcases step_update s id data nonce with hsame | ⟨old, own, hold, hedited⟩
  · rw [hsame, hrow] at hrow'
    obtain rfl := Option.some.inj hrow'
    exact absurd rfl hchanged
  · rw [hedited, rows_setRow, Function.update_self] at hrow'
    rw [hrow] at hold
    obtain rfl := Option.some.inj hold
    obtain rfl := Option.some.inj hrow'
    exact editedRow_cooldown hchanged

/-- A step judges no server by what it no longer has, exactly if it is no write-back that
finds another URL or another password. -/
theorem judged_iff_fresh (s : State) (e : Event) : Judged secrets s e ↔ Fresh secrets s e := by
  cases e with
  | update id data nonce => exact iff_of_true (judged_update s id data nonce) trivial
  | create | delete | snapshot | cancel => exact Iff.rfl
  | writeBack id reply =>
      constructor
      · intro hlaw pass row hpass hrow
        by_contra hstale
        have hoffline := hlaw pass row hpass hrow hstale (unreachable reply.server)
        have hrefused := hlaw pass row hpass hrow hstale (unauthorized reply.server)
        rw [hoffline, health_writeBack hpass hrow, health_writeBack hpass hrow] at hrefused
        have hstatus := congrArg Prod.fst (Option.some.inj hrefused)
        rw [updates_unreachable, (updates_unauthorized pass reply.server).1] at hstatus
        cases hstatus
      · intro hfresh pass row hpass hrow hstale
        exact absurd (hfresh pass row hpass hrow) hstale

/-- **Exactly the write-backs that find an edited server judge it by what it was.**  In a run
of edits, passes and deletions, from any state, no server is judged by the reply to a URL or
to a password that it no longer has, if and only if each write-back finds the server with
the URL and the password that its plan was made with, or deleted. -/
theorem judged_iff (secrets : Secrets) (s : State) (events : List Event) :
    Along (step secrets) (Judged secrets) s events ↔
      Along (step secrets) (Fresh secrets) s events :=
  along_congr (step secrets) judged_iff_fresh s events

/-- A server whose password is wrong. -/
def mistyped : Row where
  id := 1
  name := "dns-a"
  url := "http://10.0.0.11:3000"
  username := some "admin"
  passwordEnc := some "hunter1"
  zoneId := none
  enabled := true
  agentId := none
  dnsPort := 53
  exposeWebUi := false
  installMethod := none
  tlsCert := none
  prune := false
  manageUpstreams := false
  manageFiltering := false
  status := .unknown
  inSync := false
  lastError := none
  version := none
  latestVersion := none
  updateAvailable := false
  canAutoupdate := false
  updateCheckDisabled := false
  lastSeen := none
  lastSynced := none
  cooldownUntil := none

/-- The password is set right. -/
def corrected : ServerUpdate where
  name := none
  url := none
  username := none
  password := some "hunter2"
  zoneId := none
  enabled := none
  prune := none
  manageUpstreams := none
  manageFiltering := none
  installMethod := none
  dnsPort := none
  exposeWebUi := none
  others := .ok ()
  url_ne := nofun

/-- The server is edited between the snapshot of a pass and its write-back. -/
def editedMeanwhile : List Event :=
  [.create mistyped, .snapshot 1 ⟨[], [], [], [], []⟩ false, .update 1 corrected 0]

/-- The refusal of the old password sets status and cooldown, after the new one has been
stored. -/
theorem old_password_sets_cooldown :
    ¬ ∀ (secrets : Secrets) (s : State) (events : List Event),
      Along (step secrets) (Judged secrets) s events := by
  intro h
  have hrun := h ⟨fun _ password => password, some⟩ ⟨fun _ => none, fun _ => none⟩
    (editedMeanwhile ++ [.writeBack 1 (unauthorized .blank)])
  have hlast := hrun.2.2.2.1 _ _ rfl rfl (by decide +kernel) (unreachable .blank)
  have hstatus := congrArg (Option.map Prod.fst) hlast
  exact absurd hstatus (by decide +kernel)

/-! ## Undisturbed passes -/

/-- No URL and no password changes while a pass over the server is under way, and no new
server gets the id of one that is talked to. -/
def Undisturbed (secrets : Secrets) (s : State) : Event → Prop
  | .update id data nonce => s.passes id ≠ none → ∀ row row', s.rows id = some row →
      (step secrets s (.update id data nonce)).rows id = some row' →
        connection secrets row.url row.passwordEnc = connection secrets row'.url row'.passwordEnc
  | .create row => s.passes row.id = none
  | _ => True

/-- The passes under way have read what the rows still say. -/
def AllCurrent (secrets : Secrets) (s : State) : Prop :=
  ∀ id pass row, s.passes id = some pass → s.rows id = some row → Current secrets pass.plan row

/-- A pass that is over is no longer asked for its row. -/
theorem AllCurrent.setPass_none (h : AllCurrent secrets s) (id : Nat) :
    AllCurrent secrets (s.setPass id none) := by
  intro other pass row hpass hrow
  rw [passes_setPass] at hpass
  by_cases hid : other = id
  · subst hid
    rw [Function.update_self] at hpass
    cases hpass
  · rw [Function.update_of_ne hid] at hpass
    exact h other pass row hpass hrow

/-- A row may be replaced by one that the pass was planned for. -/
theorem AllCurrent.setRow (h : AllCurrent secrets s) {id : Nat} {new : Option Row}
    (hnew : ∀ pass row, s.passes id = some pass → new = some row →
      Current secrets pass.plan row) : AllCurrent secrets (s.setRow id new) := by
  intro other pass row hpass hrow
  rw [rows_setRow] at hrow
  by_cases hid : other = id
  · subst hid
    rw [Function.update_self] at hrow
    exact hnew pass row hpass hrow
  · rw [Function.update_of_ne hid] at hrow
    exact h other pass row hpass hrow

/-- A pass that begins is planned for the row that is there. -/
theorem AllCurrent.beginPass (h : AllCurrent secrets s) (id : Nat) (tables : ConfigTables)
    (dryRun : Bool) : AllCurrent secrets (beginPass id tables dryRun s) := by
  unfold WriteBack.beginPass
  split
  · next old _ hold =>
      intro other pass row hpass hrow
      rw [passes_setPass] at hpass
      by_cases hid : other = id
      · subst hid
        rw [Function.update_self] at hpass
        obtain rfl := Option.some.inj hpass
        rw [rows_setPass, hold] at hrow
        obtain rfl := Option.some.inj hrow
        rfl
      · rw [Function.update_of_ne hid] at hpass
        exact h other pass row hpass hrow
  · exact h

/-- A pass that ends leaves the others current. -/
theorem AllCurrent.endPass (h : AllCurrent secrets s) (id : Nat) (reply : Reply) :
    AllCurrent secrets (endPass id reply s) := by
  unfold WriteBack.endPass
  split
  · exact h
  · split
    · exact h.setPass_none id
    · next pass hpass _ row hrow =>
        refine AllCurrent.setPass_none (h.setRow fun other row' hother hrow' => ?_) id
        -- a write-back leaves the URL and the password of the row
        obtain rfl := Option.some.inj hrow'
        exact h id other row hother hrow

/-- A step that disturbs no pass keeps all of them current. -/
theorem allCurrent_step (s : State) (e : Event) (h : AllCurrent secrets s)
    (hcond : Undisturbed secrets s e) : AllCurrent secrets (step secrets s e) := by
  cases e with
  | create row =>
      unfold step
      dsimp only
      split
      · refine h.setRow fun pass row' hpass _ => ?_
        rw [show s.passes row.id = none from hcond] at hpass
        cases hpass
      · exact h
  | update id data nonce =>
      rcases @step_update secrets s id data nonce with hsame | ⟨row, own, hrow, hedited⟩
      · rwa [hsame]
      · rw [hedited]
        refine h.setRow fun pass row' hpass hrow' => ?_
        obtain rfl := Option.some.inj hrow'
        have hkept := hcond (by rw [hpass]; exact Option.some_ne_none pass) row _ hrow
          (by rw [hedited, rows_setRow, Function.update_self])
        exact (h id pass row hpass hrow).trans hkept
  | delete id => exact h.setRow fun _ _ _ hnone => nomatch hnone
  | snapshot id tables dryRun => exact h.beginPass id tables dryRun
  | writeBack id reply => exact h.endPass id reply
  | cancel id => exact h.setPass_none id

/-- **An undisturbed pass judges the server it has read.** -/
theorem fresh_of_undisturbed {events : List Event} (h : AllCurrent secrets s)
    (hrun : Along (step secrets) (Undisturbed secrets) s events) :
    Along (step secrets) (Fresh secrets) s events := by
  refine along_of_invariant (step secrets) (fun t e ht hcond => ?_) h hrun
  refine ⟨?_, allCurrent_step t e ht hcond⟩
  cases e with
  | writeBack id reply => exact fun pass row hpass hrow => ht id pass row hpass hrow
  | _ => trivial

end Runs

end AdguardAdmin.WriteBack
