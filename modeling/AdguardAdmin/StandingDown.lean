import AdguardAdmin.SpecBuilders
import AdguardAdmin.DnsdistRole
import AdguardAdmin.KeepalivedRole
/-!
# Standing roles down

The two roles that hold an address the network depends on, dnsdist on port 53
and keepalived on the VIP, side by side: when a successful converge on a disabled
spec leaves nothing of the role running, and when a successful converge on an
enabled dnsdist spec leaves the other install method's instance down.
-/

namespace AdguardAdmin

open Faulty

namespace Dnsdist

variable (keys : Keys) (hashOf : Json Int → String)

/-- After a pass that ends well on a disabled spec nothing of the role runs, and
after one on an enabled spec the other install method's instance does not. -/
def DisabledMeansStopped (h : Host) (a : Pass) : Prop :=
  OnSuccess keys hashOf false
      (fun s a h => Stopped ((a.converge keys hashOf s).final a.script h)) h a ∧
    OnSuccess keys hashOf true
      (fun s a h => OtherDown s ((a.converge keys hashOf s).final a.script h)) h a

/-- The pass finds only the instance its spec speaks for, and its stop works. -/
def OnlyItsOwn (h : Host) (a : Pass) : Prop :=
  OnSuccess keys hashOf false StopsAll h a ∧
    OnSuccess keys hashOf true (fun s _ h => OtherDown s h) h a

/-- A pass leaves a disabled role stopped exactly when it finds only its own. -/
theorem disabledMeansStopped_step_iff (h : Host) (a : Pass) :
    DisabledMeansStopped keys hashOf h a ↔ OnlyItsOwn keys hashOf h a := by
  unfold DisabledMeansStopped OnlyItsOwn
  refine and_congr ?_ ?_
  · exact onSuccess_congr keys hashOf (fun _ _ _ => stopped_step_iff) h a
  · exact onSuccess_congr keys hashOf (fun _ _ _ => otherDown_step_iff) h a

instance (h : Host) : Decidable (Stopped h) := inferInstanceAs (Decidable (_ ∧ _))

instance (s : Spec) (h : Host) : Decidable (OtherDown s h) := by
  unfold OtherDown
  infer_instance

instance (h : Host) (a : Pass) : Decidable (DisabledMeansStopped keys hashOf h a) :=
  inferInstanceAs (Decidable (_ ∧ _))

end Dnsdist

namespace Keepalived

/-- After a pass that ends well on a disabled spec nothing of the role runs. -/
def DisabledMeansStopped : Host → Pass → Prop :=
  OnSuccess false fun s a h => ¬ RoleRuns ((converge s a.box).final a.script h)

/-- The stop command works, or nothing of the role runs. -/
def StopWorks : Host → Pass → Prop :=
  OnSuccess false fun _ a h => a.script .stop = .done ∨ ¬ RoleRuns h

end Keepalived

/-- **Disabled means stopped, exactly when the stop reaches what runs.**  Along
every run of either role, each successful pass on a disabled spec leaves nothing
of the role running, and each successful dnsdist pass on an enabled spec leaves
the other install method's instance down, if and only if every such pass finds
only the instance its own spec speaks for and its stop command works. -/
theorem disabled_means_stopped_iff (keys : Dnsdist.Keys) (hashOf : Json Int → String) :
    (∀ (start : Dnsdist.Host) (run : List Dnsdist.Pass),
      RunLaws.Along (Dnsdist.step keys hashOf) (Dnsdist.DisabledMeansStopped keys hashOf) start run ↔
        RunLaws.Along (Dnsdist.step keys hashOf) (Dnsdist.OnlyItsOwn keys hashOf) start run) ∧
    (∀ (start : Keepalived.Host) (run : List Keepalived.Pass),
      RunLaws.Along Keepalived.step Keepalived.DisabledMeansStopped start run ↔
        RunLaws.Along Keepalived.step Keepalived.StopWorks start run) := by
  constructor
  · intro start run
    exact RunLaws.along_congr _ (Dnsdist.disabledMeansStopped_step_iff keys hashOf) start run
  · intro start run
    exact RunLaws.along_congr _
      (Keepalived.onSuccess_congr fun _ _ _ => Keepalived.stopped_iff) start run

/-- The control plane's disabled spec does not stop a native dnsdist. -/
theorem native_dnsdist_outlives_disable :
    ¬ RunLaws.Along (Dnsdist.step ⟨"key", "key"⟩ fun _ => Dnsdist.hostnameHash)
      (Dnsdist.DisabledMeansStopped ⟨"key", "key"⟩ fun _ => Dnsdist.hostnameHash)
      Dnsdist.freshHost
      [⟨Dnsdist.hostnameSpec, Dnsdist.boxResolving "10.0.0.11", allDone⟩,
        ⟨disabledDnsdist, Dnsdist.boxResolving "10.0.0.11", allDone⟩] := by
  decide +kernel

end AdguardAdmin
