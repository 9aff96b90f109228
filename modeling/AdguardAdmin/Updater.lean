import AdguardAdmin.AdGuardServer
/-!
# Upgrades of a server

An automatic pass looks which servers are due, and upgrades them one after the other,
which can take a while; a forced pass does the same without the maintenance window and
without the backoff.  An upgrade asks the server itself what it should install and what
it runs, and leaves a single record of how it ended: the next pass has nothing else to
go by.

Versions are texts, and a server may spell the one it runs and the one it offers
differently.  Times are numbers of seconds.
-/

namespace AdguardAdmin.Updater

open PyText

inductive UpdateState where
  | idle
  | running
  | succeeded
  | failed
  | delegated
  deriving DecidableEq, Repr

/-- A row of the server table, as far as upgrades read and write it, with the address of
its agent. -/
structure Row where
  enabled : Bool
  autoUpdate : Bool
  installMethod : Option InstallMethod
  agentId : Option Nat
  agentUrl : Option String
  version : Option String
  latestVersion : Option String
  updateAvailable : Bool
  canAutoupdate : Bool
  updateCheckDisabled : Bool
  cooldownUntil : Option Nat
  updateState : UpdateState
  updateAttemptedAt : Option Nat
  updateAttemptedVersion : Option String
  updateCompletedAt : Option Nat
  deriving DecidableEq, Repr

/-- `AUTO_UPDATE_WINDOW`, in minutes since midnight. -/
inductive Window where
  | anyTime
  | between (start stop : Nat)
  | malformed
  deriving DecidableEq, Repr

structure Settings where
  autoUpdateEnabled : Bool
  autoUpdateWindow : Window
  autoUpdateRetryHours : Int
  deriving DecidableEq, Repr

/-- How long a failed upgrade is not tried again. -/
def Settings.backoff (settings : Settings) : Nat := settings.autoUpdateRetryHours.toNat * 3600

/-! ## Which servers are due -/

/-- A malformed window refuses every upgrade; one that wraps midnight is taken as such. -/
def inMaintenanceWindow (settings : Settings) (now : Nat) : Bool :=
  let minutes := now / 60 % 1440
  match settings.autoUpdateWindow with
  | .malformed => false
  | .anyTime => true
  | .between start stop =>
      if start < stop then start ≤ minutes && minutes < stop
      else start ≤ minutes || minutes < stop

/-- Why a server is not due for an automatic upgrade. -/
inductive SkipReason where
  | disabled
  | optedOut
  | keptCurrentOnBox
  | checkSwitchedOff
  | latest
  | cooldown
  | delegated
  | failed (retryAt : Nat)
  deriving DecidableEq, Repr

/-- `(value or "").strip()`. -/
def text (value : Option String) : String := strip (value.getD "")

def skipReason (settings : Settings) (server : Row) (now : Nat) : Option SkipReason :=
  if server.enabled = false then some .disabled
  else if server.autoUpdate = false then some .optedOut
  else if server.updateAvailable = false ∨ text server.latestVersion = "" then
    if server.updateCheckDisabled then
      if server.installMethod = some .docker ∧ server.agentId = none then some .keptCurrentOnBox
      else some .checkSwitchedOff
    else some .latest
  else if server.cooldownUntil.any (now < ·) then some .cooldown
  else
    let target := text server.latestVersion
    let attempted := text server.updateAttemptedVersion
    if server.updateState = .delegated ∧ attempted = target then some .delegated
    else if server.updateState = .failed ∧ attempted = target then
      match server.updateAttemptedAt with
      | some attemptedAt =>
          if now < attemptedAt + settings.backoff then some (.failed (attemptedAt + settings.backoff))
          else none
      | none => none
    else none

/-- A forced pass still refuses the pointless case of nothing to install, except for a
container behind an agent, whose image tag can move. -/
def worthForcing (server : Row) : Bool :=
  (server.agentId.isSome && server.installMethod = some .docker) ||
    (server.updateAvailable && text server.latestVersion ≠ "")

/-- Whether a pass upgrades a server (`run_updates` and `due_server_ids`). -/
def due (settings : Settings) (force : Bool) (server : Row) (now : Nat) : Bool :=
  if force then worthForcing server
  else settings.autoUpdateEnabled && inMaintenanceWindow settings now &&
    (skipReason settings server now).isNone

/-! ## One upgrade -/

/-- How the request for an upgrade was answered. -/
inductive UpdateReply where
  | accepted
  /-- The connection died, as it does when the process restarts. -/
  | dropped
  | refused
  deriving DecidableEq, Repr

/-- An answer while the server comes back. -/
inductive Poll where
  | down
  | malformed
  | up (version : Option String)
  deriving DecidableEq, Repr

/-- What the server and its agent answer during one upgrade.  `none` is a failed request
or an answer that cannot be read. -/
structure Replies where
  /-- A client can be built from the row. -/
  client : Bool
  versionCheck : Option VersionInfo
  status : Option (Option String)
  agentUpdate : Option Bool
  updateNow : UpdateReply
  /-- Up to the deadline. -/
  polls : List Poll
  deriving DecidableEq, Repr

/-- The version a server came back on, or that it did not; `none` is an answer that ends
the wait. -/
abbrev Wait := Option (Option String)

def awaitNewVersion (previous : Option String) : List Poll → Wait
  | [] => some none
  | .down :: rest => awaitNewVersion previous rest
  | .malformed :: _ => none
  | .up version :: rest =>
      if text version ≠ "" ∧ text version ≠ text previous then some (some (text version))
      else awaitNewVersion previous rest

def awaitBack : List Poll → Wait
  | [] => some none
  | .down :: rest => awaitBack rest
  | .malformed :: _ => none
  | .up version :: rest => if text version ≠ "" then some (some (text version)) else awaitBack rest

/-- How an upgrade ended: whether a request for it went out and for which version, and
what is recorded. -/
structure Attempt where
  sent : Bool
  target : Option String
  state : UpdateState
  fromVersion : Option String
  toVersion : Option String
  attemptedVersion : Option String
  deriving DecidableEq, Repr

def nonempty (s : String) : Option String := if s = "" then none else some s

/-- A container cannot replace its own image, but the agent on its host can. -/
def viaAgent (server : Row) : Bool :=
  server.agentUrl.any (· ≠ "") && server.installMethod = some .docker

def throughAgent (r : Replies) (target current : Option String) : Attempt :=
  let attempt (state : UpdateState) (toVersion attempted : Option String) : Attempt :=
    ⟨true, target, state, current, toVersion, attempted⟩
  match r.agentUpdate with
  | none => attempt .failed target target
  | some false => attempt .idle target none
  | some true =>
      match awaitBack r.polls with
      | some (some version) => attempt .succeeded (some version) (target.or (some version))
      | some none | none => attempt .failed target target

def inPlace (r : Replies) (target : String) (current : Option String) : Attempt :=
  let attempt (state : UpdateState) (toVersion : Option String) : Attempt :=
    ⟨true, some target, state, current, toVersion, some target⟩
  match r.updateNow with
  | .refused => attempt .failed (some target)
  | .accepted | .dropped =>
      match awaitNewVersion current r.polls with
      | some (some version) => attempt .succeeded (some version)
      | some none | none => attempt .failed (some target)

/-- The version a server says it runs, or else the one it had last. -/
def currentVersion (server : Row) (version : Option String) : Option String :=
  (nonempty (text version)).or server.version

/-- AdGuard replaces its own binary, and says that it can. -/
def replacesItself (server : Row) (canAutoupdate : Bool) : Bool :=
  server.installMethod ≠ some .docker && canAutoupdate

/-- `update_server` up to its record. -/
def attempt (server : Row) (r : Replies) : Attempt :=
  if r.client = false then ⟨false, none, .failed, server.version, none, none⟩
  else
    match r.versionCheck with
    | none => ⟨false, none, .failed, server.version, none, none⟩
    | some info =>
        let target := nonempty (text info.newVersion)
        match r.status with
        | none => ⟨false, target, .failed, server.version, target, target⟩
        | some version =>
            let current := currentVersion server version
            if viaAgent server then throughAgent r target current
            else
              match target with
              | none => ⟨false, none, .idle, current, none, none⟩
              | some t =>
                  if t = current.getD "" then ⟨false, target, .idle, current, none, none⟩
                  else if replacesItself server info.canAutoupdate then inPlace r t current
                  else ⟨false, target, .delegated, current, target, target⟩

/-- `_record`. -/
def record (server : Row) (a : Attempt) (now : Nat) : Row :=
  let server := { server with
    updateState := a.state
    updateAttemptedAt := some now
    updateAttemptedVersion := a.attemptedVersion }
  if a.state = .succeeded then
    { server with
      updateCompletedAt := some now
      version := if a.toVersion.getD "" = "" then server.version else a.toVersion
      updateAvailable := false
      latestVersion := none }
  else server

/-! ## What a reconcile pass writes -/

/-- `apply_updates`. -/
def applyUpdates (server : Row) (updates : ServerUpdates) : Row :=
  let server :=
    if updates.version = none then server else { server with version := updates.version }
  let server :=
    if updates.latestVersion = none ∧ updates.status ≠ .online then server
    else { server with
      latestVersion := updates.latestVersion
      updateAvailable := updates.updateAvailable
      canAutoupdate := updates.canAutoupdate
      updateCheckDisabled := updates.updateCheckDisabled }
  if updates.clearCooldown then { server with cooldownUntil := none }
  else if updates.cooldownUntil = none then server
  else { server with cooldownUntil := updates.cooldownUntil }

/-! ## When an upgrade is asked for -/

/-- A release that a server reports, and what it says of itself. -/
structure Offer where
  target : String
  canAutoupdate : Bool
  version : Option String
  deriving DecidableEq, Repr

/-- The offer of a server that answers both questions. -/
def Replies.offer (r : Replies) : Option Offer :=
  if r.client then
    match r.versionCheck, r.status with
    | some info, some version =>
        (nonempty (text info.newVersion)).map fun target => ⟨target, info.canAutoupdate, version⟩
    | _, _ => none
  else none

/-- A release is recognised when it is what the server already runs, in the same spelling,
or when the server is left to somebody else. -/
def Recognised (server : Row) (o : Offer) : Prop :=
  viaAgent server = false ∧
    (o.target = (currentVersion server o.version).getD "" ∨
      replacesItself server o.canAutoupdate = false)

instance (server : Row) (o : Offer) : Decidable (Recognised server o) :=
  inferInstanceAs (Decidable (_ ∧ _))

@[simp] theorem nonempty_eq_some {s t : String} : nonempty s = some t ↔ s = t ∧ s ≠ "" := by
  unfold nonempty
  split <;> grind

/-- An upgrade through the agent is sent for the target it was given. -/
theorem throughAgent_sent (r : Replies) (target current : Option String) :
    (throughAgent r target current).sent = true ∧
      (throughAgent r target current).target = target := by
  unfold throughAgent
  split
  · simp
  · simp
  · split <;> simp

/-- An update in place was sent for the target. -/
theorem inPlace_sent (r : Replies) (t : String) (current : Option String) :
    (inPlace r t current).sent = true ∧ (inPlace r t current).target = some t := by
  unfold inPlace
  split
  · simp
  all_goals
    dsimp only
    split <;> simp

/-- **What a request is for**: the release that is offered, when it is not recognised. -/
theorem attempt_sent {server : Row} {r : Replies} {t : String} :
    ((attempt server r).sent = true ∧ (attempt server r).target = some t) ↔
      ∃ o, r.offer = some o ∧ o.target = t ∧ ¬ Recognised server o := by
  unfold attempt Replies.offer
  cases hclient : r.client with
  | false => simp
  | true =>
      cases hcheck : r.versionCheck with
      | none => simp
      | some info =>
          cases hstatus : r.status with
          | none => simp
          | some version =>
              simp only [Bool.true_eq_false, if_false, if_true, Recognised]
              generalize nonempty (text info.newVersion) = target
              cases hagent : viaAgent server with
              | true =>
                  obtain ⟨hsent, htarget⟩ :=
                    throughAgent_sent r target (currentVersion server version)
                  cases target with
                  | none => simp [htarget]
                  | some u => simp [hsent, htarget]
              | false =>
                  cases target with
                  | none => simp
                  | some u =>
                      obtain ⟨hsent, htarget⟩ :=
                        inPlace_sent r u (currentVersion server version)
                      by_cases hsame : u = (currentVersion server version).getD ""
                      · simp [← hsame]
                      · cases hcan : replacesItself server info.canAutoupdate with
                        | true => simp [hsame, hcan, hsent, htarget]
                        | false => simp [hsame, hcan]

end AdguardAdmin.Updater
