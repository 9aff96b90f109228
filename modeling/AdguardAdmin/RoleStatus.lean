import AdguardAdmin.Manager
/-!
# What a role's state says

A converge works on a snapshot while `Put` may replace the desired spec, and its
final update sets the state without looking at what is desired by then.  A role
can also report itself ready before its final update.

`honest_iff_inTime` gives the exact runs in which a role that says it is ready or
stopped has applied the spec it is asked for.
-/

namespace AdguardAdmin.Manager

open RunLaws

variable {Spec : Type} {reader : Reader Spec}

/-- The states that report success. -/
def RoleState.succeeded : RoleState → Bool
  | .ready | .stopped => true
  | _ => false

/-- A status that reports success is one of the desired spec. -/
def Common.Honest (c : Common) : Prop :=
  c.state.succeeded = true → c.appliedHash = c.desiredHash

instance (c : Common) : Decidable c.Honest := inferInstanceAs (Decidable (_ → _))

/-- Which steps write the status, and what. -/
theorem step_common (s : Entry reader) (e : Event) :
    (s.step e).common =
      match e with
      | .update i =>
          match s.puts i with
          | .written d => s.common.want d.hash
          | _ => s.common
      | .report state message =>
          match s.loop with
          | .converging _ => s.common.report state message
          | _ => s.common
      | .finish result now =>
          match s.loop with
          | .converging d => s.common.finish d.hash now result
          | _ => s.common
      | .resetApplied => s.common.reset
      | _ => s.common := by
  cases e with
  | put i raw =>
      simp only [Entry.step]
      split
      · split <;> rfl
      · rfl
  | update i => cases hi : s.puts i <;> simp [Entry.step, hi]
  | report state message => cases hl : s.loop <;> simp [Entry.step, hl]
  | finish result now => cases hl : s.loop <;> simp [Entry.step, hl]
  | wake | unlock | resetApplied => rfl
  | _ =>
      simp only [Entry.step]
      split <;> rfl

/-- A converge ends well only while the spec it took its snapshot of is still the
desired one, and reports success midway only once that spec has been applied. -/
def InTime (s : Entry reader) (e : Event) : Prop :=
  match s.loop, e with
  | .converging d, .finish (.ok _) _ => d.hash = s.common.desiredHash
  | .converging _, .report state _ =>
      state.succeeded = true → s.common.appliedHash = s.common.desiredHash
  | _, _ => True

namespace Common

/-- A role that wants a spec does not claim to have it. -/
theorem honest_want (c : Common) (hash : String) : (c.want hash).Honest := by
  unfold want
  split
  · rename_i happlied
    exact fun _ => happlied
  · intro hstate
    cases hstate

/-- One that ends well is honest exactly when nothing else was wanted meanwhile. -/
theorem honest_finish_ok_iff (c : Common) (hash now : String) (out : Outcome) :
    (c.finish hash now (.ok out)).Honest ↔ hash = c.desiredHash := by
  have hstate : (c.finish hash now (.ok out)).state.succeeded = true := by
    cases h : out.enabled <;> simp [finish, h, RoleState.succeeded]
  exact ⟨fun h => h hstate, fun h _ => h⟩

/-- A pass that fails leaves the status honest. -/
theorem honest_finish_error (c : Common) (hash now message : String) :
    (c.finish hash now (.error message)).Honest := by
  intro hstate
  cases hstate

/-- A report is honest when a success is one of the wanted spec. -/
theorem honest_report_iff (c : Common) (state : RoleState) (message : String) :
    (c.report state message).Honest ↔
      (state.succeeded = true → c.appliedHash = c.desiredHash) := Iff.rfl

theorem honest_reset (c : Common) : c.reset.Honest := by
  intro hstate
  cases hstate

end Common

theorem honest_load (disk : Disk) : (load reader disk).common.Honest := by
  intro hstate
  simp only [load] at hstate
  split at hstate <;> cases hstate

/-- A step keeps the status honest exactly under the condition. -/
theorem honest_step_iff (s : Entry reader) (e : Event) (h : s.common.Honest) :
    (s.step e).common.Honest ↔ InTime s e := by
  rw [step_common]
  cases e with
  | update i =>
      have hkept : InTime s (.update i) := by simp [InTime]
      refine iff_of_true ?_ hkept
      dsimp only
      split
      · exact Common.honest_want _ _
      · exact h
  | report state message =>
      cases hl : s.loop with
      | converging d => simp only [InTime, hl, Common.honest_report_iff]
      | _ => simp [InTime, hl, h]
  | finish result now =>
      cases hl : s.loop with
      | converging d =>
          cases result with
          | error message => simp [InTime, hl, Common.honest_finish_error]
          | ok out => simp [InTime, hl, Common.honest_finish_ok_iff]
      | _ => simp [InTime, hl, h]
  | resetApplied => simp [InTime, Common.honest_reset]
  | _ => simp [InTime, h]

/-- **A role reports success for the desired spec, exactly when its converges are
in time.**  In every state of a run the state is ready or stopped only with the
desired spec applied, if and only if at every successful final update the snapshot's
spec is still desired and every midway report of success finds it applied. -/
theorem honest_iff_inTime (disk : Disk) (events : List Event) :
    Throughout Entry.step (fun s => s.common.Honest) (load reader disk) events ↔
      Along Entry.step InTime (load reader disk) events :=
  throughout_iff_along Entry.step honest_step_iff (honest_load disk) events

/-- Accepts every body and hashes it to its own text. -/
def plainReader : Reader Raw where
  decode := .ok
  hash raw := .ok (String.ofList (raw.map fun b => Char.ofNat b.toNat))

def putCall (i : Nat) (raw : Raw) : List Event :=
  [.put i raw, .writeDesired i (.ok ()), .update i, .signal i]

/-- A second spec arrives while the first one is being converged to. -/
def overtaken : List Event :=
  putCall 0 [97] ++ [.lock, .snapshot] ++ putCall 1 [98] ++ [.finish (.ok ⟨"1.9", true⟩) "12:00"]

/-- A role may be ready for a spec that is no longer wanted. -/
theorem ready_for_the_old_spec :
    ¬ ∀ (disk : Disk) (events : List Event),
      Throughout Entry.step (fun s => s.common.Honest) (load plainReader disk) events := by
  intro h
  have hlast := throughout_last Entry.step (h ⟨none, none⟩ overtaken)
  revert hlast
  decide +kernel

end AdguardAdmin.Manager
