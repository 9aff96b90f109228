import AdguardAdmin.PyText
import AdguardAdmin.SpecBuilders
/-!
# Agents that are asked to replace themselves

The control plane ships a build of the agent.  A pass that finds another version on a host asks
the agent to replace its own binary, and leaves the rest of the host to the next pass, since the
agent restarts.  It asks again when some time has passed.

* `not_started_again` — an agent that was asked is not asked again before that.
-/

namespace AdguardAdmin.AgentUpdates

open PyText

/-- `build_manifest`: the version, and the checksums of the binaries by platform. -/
structure Manifest where
  version : String
  files : List (String × String)
  deriving DecidableEq, Repr

/-- Where an agent gets a build. -/
structure Download where
  version : String
  url : String
  sha256 : String
  deriving DecidableEq, Repr

/-- Times are numbers of microseconds. -/
structure Settings where
  agentAutoUpdate : Bool
  agentUpdateRetryMinutes : Int
  publicBaseUrl : String
  deriving DecidableEq, Repr

namespace Manifest

/-- `shipped_version`. -/
def shippedVersion (m : Manifest) : Option String :=
  if m.files = [] ∨ m.version ∈ ["", "unknown", "dev"] then none else some m.version

/-- `update_for`. -/
def updateFor (m : Manifest) (publicBaseUrl agentArch : String) : Option Download :=
  let arch := strip agentArch
  match m.shippedVersion, m.files.lookup ("linux/" ++ arch) with
  | some version, some sha256 =>
      let base := String.ofList (rstripBy (· = '/') publicBaseUrl.toList)
      some ⟨version, base ++ "/api/agents/download/linux/" ++ arch, sha256⟩
  | _, _ => none

end Manifest

/-- What a row of the agent table has of the agent's build. -/
structure Build where
  version : Option String
  arch : Option String
  updateAttemptedAt : Option Int
  updateError : Option String
  deriving DecidableEq, Repr

/-- What an agent says of itself in its `info`, and to a request to replace itself: an error, or
the `ok` of the reply. -/
structure Visit where
  agentVersion : Option String
  arch : Option String
  reply : Download → Except String (Option Bool)
  now : Int
  recordedAt : Int

/-- `a or b or ""`. -/
def firstOf (a b : Option String) : String := orText (a.getD "") (b.getD "")

/-- `update_due`. -/
def updateDue (settings : Settings) (m : Manifest) (reported : String) (attemptedAt : Option Int)
    (force : Bool) (now : Int) : Bool :=
  match m.shippedVersion with
  | none => false
  | some shipped =>
      if force = false ∧ (settings.agentAutoUpdate = false ∨
          attemptedAt.any fun at' => now - at' < settings.agentUpdateRetryMinutes * 60000000) then
        false
      else strip reported ≠ shipped

/-- What a pass notes of a self-update, and whether the agent is at it. -/
structure SelfUpdate where
  requested : Bool
  error : Option String
  started : Bool
  deriving DecidableEq, Repr

/-- `_self_update_if_due`. -/
def selfUpdateIfDue (settings : Settings) (m : Manifest) (build : Build) (visit : Visit)
    (force : Bool) : SelfUpdate :=
  let arch := firstOf visit.arch build.arch
  if updateDue settings m (firstOf visit.agentVersion build.version) build.updateAttemptedAt force
      visit.now = false then
    ⟨false, none, false⟩
  else
    match m.updateFor settings.publicBaseUrl arch with
    | none =>
        ⟨true, some ("no agent build for linux/" ++ orText arch "?" ++ " on this control plane"),
          false⟩
    | some target =>
        match visit.reply target with
        | .error text => ⟨true, some text, false⟩
        | .ok ok => ⟨true, none, ok.getD true⟩

/-- `str(a or b or "")[:50] or None`. -/
def shortened (a b : Option String) : Option String :=
  let text := String.ofList ((firstOf a b).toList.take 50)
  if text = "" then none else some text

/-- `_record_agent`, of the build. -/
def recordBuild (build : Build) (visit : Visit) (outcome : SelfUpdate) : Build :=
  let build := { build with
    version := shortened visit.agentVersion build.version
    arch := shortened visit.arch build.arch }
  if outcome.requested = true then
    { build with updateAttemptedAt := some visit.recordedAt, updateError := outcome.error }
  else build

/-- A self-update that has started was requested. -/
theorem requested_of_started {settings : Settings} {m : Manifest} {build : Build} {visit : Visit}
    {force : Bool} (h : (selfUpdateIfDue settings m build visit force).started = true) :
    (selfUpdateIfDue settings m build visit force).requested = true := by
  unfold selfUpdateIfDue at h ⊢
  dsimp only at h ⊢
  split at h
  · cases h
  · next hdue =>
      rw [if_neg hdue]
      split
      · rfl
      · split <;> rfl

/-- **An agent that has started to replace itself is left alone for a while**, whatever it says. -/
theorem not_started_again {settings : Settings} {m : Manifest} {build : Build}
    {visit later : Visit} (h : (selfUpdateIfDue settings m build visit false).started = true)
    (hnow : later.now - visit.recordedAt < settings.agentUpdateRetryMinutes * 60000000) :
    (selfUpdateIfDue settings m
      (recordBuild build visit (selfUpdateIfDue settings m build visit false)) later
        false).started = false := by
  have hattempted : (recordBuild build visit
      (selfUpdateIfDue settings m build visit false)).updateAttemptedAt = some visit.recordedAt := by
    rw [recordBuild, if_pos (requested_of_started h)]
  have hdue : ∀ reported, updateDue settings m reported (some visit.recordedAt) false
      later.now = false := by
    intro reported
    unfold updateDue
    split
    · rfl
    · rw [if_pos ⟨rfl, .inr (by simpa using hnow)⟩]
  rw [selfUpdateIfDue, hattempted, if_pos (hdue _)]

end AdguardAdmin.AgentUpdates
