import AdguardAdmin.BalancerRules
import AdguardAdmin.DnsdistDecoding
import AdguardAdmin.KeepalivedDecoding
import AdguardAdmin.SpecAcceptance
/-!
# Roles without a balancer

A reconcile pass pushes specs for the balancer rows that exist.  Nothing but the
request that takes a host's balancer away can therefore stand down what the host
still runs for it: `delete_load_balancer` tells one of the two roles, once, and
`update_load_balancer` tells the old host of a moved balancer nothing.

`Attended` says that every host that runs one of the roles has a balancer row, and
`Tidy` is what requests and passes have to find for it to stay true and for a pass to
get its way.  `no_orphaned_role` draws the consequence for passes that reach every
host.
-/

namespace AdguardAdmin.BalancerHosts

open RunLaws TableIds GoText ControlPlane
open Registry (HttpError)

/-! ## What an agent has stored -/

/-- The desired specs of the two roles. -/
structure Stored where
  dnsdist : Option (Json Int)
  keepalived : Option (Json Int)

def dnsdistEnabled (raw : Json Int) : Bool := (Dnsdist.decode raw).toOption.any (·.enabled)

def keepalivedEnabled (raw : Json Int) : Bool := (Keepalived.decode raw).toOption.any (·.enabled)

namespace Stored

variable (h : Stored)

def runsDnsdist : Bool := h.dnsdist.any dnsdistEnabled

def runsKeepalived : Bool := h.keepalived.any keepalivedEnabled

/-- The agent stores a spec it can decode and refuses any other. -/
def putDnsdist (raw : Json Int) : Except Error Stored := do
  let _ ← Dnsdist.decode raw
  return { h with dnsdist := some raw }

def putKeepalived (raw : Json Int) : Except Error Stored := do
  let _ ← Keepalived.decode raw
  return { h with keepalived := some raw }

/-- Push the planned spec, or stand the role down if it has one.  A spec the agent has
already is not sent, which comes to the same. -/
def pushDnsdist : Option (Json Int) → Except Error Stored
  | some raw => h.putDnsdist raw
  | none => if h.dnsdist.isSome then h.putDnsdist disabledDnsdist else .ok h

def pushKeepalived : Option (Json Int) → Except Error Stored
  | some raw => h.putKeepalived raw
  | none => if h.keepalived.isSome then h.putKeepalived disabledKeepalived else .ok h

/-- A failed request leaves what was stored. -/
def orKeep : Except Error Stored → Stored
  | .ok told => told
  | .error _ => h

/-- Dnsdist first; its failure ends the plan. -/
def runLbPlan (plan : LbPlan) : Stored :=
  match h.pushDnsdist plan.dnsdist with
  | .error _ => h
  | .ok told => told.orKeep (told.pushKeepalived plan.keepalived)

/-- What the host of a deleted balancer is told. -/
def standDown : LbMode → Stored
  | .ipvs => h.orKeep (h.putKeepalived disabledKeepalived)
  | .dnsdist => h.orKeep (h.putDnsdist disabledDnsdist)

/-! ### What a push leaves -/

variable {h} {told : Stored}

/-- A dnsdist spec that was taken is stored. -/
theorem putDnsdist_ok {raw : Json Int} (hput : h.putDnsdist raw = .ok told) :
    told = { h with dnsdist := some raw } := by
  obtain ⟨_, -, hput⟩ := bind_ok.mp hput
  exact (pure_ok.mp hput).symm

theorem putKeepalived_ok {raw : Json Int} (hput : h.putKeepalived raw = .ok told) :
    told = { h with keepalived := some raw } := by
  obtain ⟨_, -, hput⟩ := bind_ok.mp hput
  exact (pure_ok.mp hput).symm

/-- An accepted dnsdist spec is taken. -/
theorem accepts_putDnsdist {raw : Json Int} (haccepts : Accepts (Dnsdist.decode raw)) :
    h.putDnsdist raw = .ok { h with dnsdist := some raw } := by
  obtain ⟨spec, hspec⟩ := haccepts
  exact bind_ok.mpr ⟨spec, hspec, rfl⟩

theorem accepts_putKeepalived {raw : Json Int} (haccepts : Accepts (Keepalived.decode raw)) :
    h.putKeepalived raw = .ok { h with keepalived := some raw } := by
  obtain ⟨spec, hspec⟩ := haccepts
  exact bind_ok.mpr ⟨spec, hspec, rfl⟩

/-- The disabled dnsdist spec is accepted. -/
theorem accepts_disabledDnsdist : Accepts (Dnsdist.decode disabledDnsdist) := by
  have hok : (Dnsdist.decode disabledDnsdist).toOption.isSome = true := by decide +kernel
  cases hdecode : Dnsdist.decode disabledDnsdist with
  | error e => simp [hdecode, Except.toOption] at hok
  | ok spec => exact ⟨spec, rfl⟩

/-- The agent accepts the disabled keepalived spec. -/
theorem accepts_disabledKeepalived : Accepts (Keepalived.decode disabledKeepalived) := by
  have hok : (Keepalived.decode disabledKeepalived).toOption.isSome = true := by decide +kernel
  cases hdecode : Keepalived.decode disabledKeepalived with
  | error e => simp [hdecode, Except.toOption] at hok
  | ok spec => exact ⟨spec, rfl⟩

theorem dnsdistEnabled_disabled : dnsdistEnabled disabledDnsdist = false := by decide +kernel

theorem keepalivedEnabled_disabled : keepalivedEnabled disabledKeepalived = false := by
  decide +kernel

/-- After a push of dnsdist the role runs only if the planned spec is enabled. -/
theorem pushDnsdist_ok {planned : Option (Json Int)} (hpush : h.pushDnsdist planned = .ok told) :
    told.keepalived = h.keepalived ∧
      (told.runsDnsdist = true → ∃ raw, planned = some raw ∧ dnsdistEnabled raw = true) := by
  cases planned with
  | some raw =>
      obtain rfl := putDnsdist_ok hpush
      exact ⟨rfl, fun hruns => ⟨raw, rfl, hruns⟩⟩
  | none =>
      simp only [pushDnsdist] at hpush
      split at hpush
      · obtain rfl := putDnsdist_ok hpush
        refine ⟨rfl, fun hruns => ?_⟩
        exact absurd hruns (by simp [runsDnsdist, dnsdistEnabled_disabled])
      · rename_i hnone
        obtain rfl := Except.ok.inj hpush
        refine ⟨rfl, fun hruns => ?_⟩
        simp [runsDnsdist, Option.not_isSome_iff_eq_none.mp hnone] at hruns

/-- A push that ends well leaves keepalived running only where it is planned and enabled. -/
theorem pushKeepalived_ok {planned : Option (Json Int)}
    (hpush : h.pushKeepalived planned = .ok told) :
    told.dnsdist = h.dnsdist ∧
      (told.runsKeepalived = true → ∃ raw, planned = some raw ∧ keepalivedEnabled raw = true) := by
  cases planned with
  | some raw =>
      obtain rfl := putKeepalived_ok hpush
      exact ⟨rfl, fun hruns => ⟨raw, rfl, hruns⟩⟩
  | none =>
      simp only [pushKeepalived] at hpush
      split at hpush
      · obtain rfl := putKeepalived_ok hpush
        refine ⟨rfl, fun hruns => ?_⟩
        exact absurd hruns (by simp [runsKeepalived, keepalivedEnabled_disabled])
      · rename_i hnone
        obtain rfl := Except.ok.inj hpush
        refine ⟨rfl, fun hruns => ?_⟩
        simp [runsKeepalived, Option.not_isSome_iff_eq_none.mp hnone] at hruns

/-- A push fails only on a spec the agent refuses. -/
theorem refused_of_pushDnsdist {planned : Option (Json Int)} {e : Error}
    (hpush : h.pushDnsdist planned = .error e) :
    ∃ raw, planned = some raw ∧ ¬ Accepts (Dnsdist.decode raw) := by
  cases planned with
  | some raw =>
      refine ⟨raw, rfl, fun haccepts => ?_⟩
      cases hpush.symm.trans (accepts_putDnsdist haccepts)
  | none =>
      simp only [pushDnsdist] at hpush
      split at hpush
      · cases hpush.symm.trans (accepts_putDnsdist accepts_disabledDnsdist)
      · cases hpush

/-- A push fails only at a spec that is refused. -/
theorem refused_of_pushKeepalived {planned : Option (Json Int)} {e : Error}
    (hpush : h.pushKeepalived planned = .error e) :
    ∃ raw, planned = some raw ∧ ¬ Accepts (Keepalived.decode raw) := by
  cases planned with
  | some raw =>
      refine ⟨raw, rfl, fun haccepts => ?_⟩
      cases hpush.symm.trans (accepts_putKeepalived haccepts)
  | none =>
      simp only [pushKeepalived] at hpush
      split at hpush
      · cases hpush.symm.trans (accepts_putKeepalived accepts_disabledKeepalived)
      · cases hpush

/-- The agent takes the dnsdist spec of a plan, if there is one. -/
def TakesDnsdist (plan : LbPlan) : Prop :=
  ∀ raw, plan.dnsdist = some raw → Accepts (Dnsdist.decode raw)

def TakesKeepalived (plan : LbPlan) : Prop :=
  ∀ raw, plan.keepalived = some raw → Accepts (Keepalived.decode raw)

/-- **Where a running dnsdist comes from** after a plan has been run: from the plan, or
from before if the agent refused the plan's spec. -/
theorem runLbPlan_dnsdist {plan : LbPlan} (hruns : (h.runLbPlan plan).runsDnsdist = true) :
    (∃ raw, plan.dnsdist = some raw ∧ dnsdistEnabled raw = true) ∨
      (¬ TakesDnsdist plan ∧ h.runsDnsdist = true) := by
  unfold runLbPlan at hruns
  split at hruns
  · rename_i e hpush
    obtain ⟨raw, hraw, hrefused⟩ := refused_of_pushDnsdist hpush
    exact .inr ⟨fun htakes => hrefused (htakes raw hraw), hruns⟩
  · rename_i told hpush
    refine .inl ((pushDnsdist_ok hpush).2 ?_)
    cases hka : told.pushKeepalived plan.keepalived with
    | error e => simpa only [hka, orKeep] using hruns
    | ok told' =>
        rw [hka] at hruns
        rwa [runsDnsdist, ← (pushKeepalived_ok hka).1]

/-- Where a running keepalived comes from. -/
theorem runLbPlan_keepalived {plan : LbPlan} (hruns : (h.runLbPlan plan).runsKeepalived = true) :
    (∃ raw, plan.keepalived = some raw ∧ keepalivedEnabled raw = true) ∨
      (¬(TakesDnsdist plan ∧ TakesKeepalived plan) ∧ h.runsKeepalived = true) := by
  unfold runLbPlan at hruns
  split at hruns
  · rename_i e hpush
    obtain ⟨raw, hraw, hrefused⟩ := refused_of_pushDnsdist hpush
    exact .inr ⟨fun htakes => hrefused (htakes.1 raw hraw), hruns⟩
  · rename_i told hpush
    cases hka : told.pushKeepalived plan.keepalived with
    | error e =>
        obtain ⟨raw, hraw, hrefused⟩ := refused_of_pushKeepalived hka
        rw [hka] at hruns
        refine .inr ⟨fun htakes => hrefused (htakes.2 raw hraw), ?_⟩
        rwa [runsKeepalived, ← (pushDnsdist_ok hpush).1]
    | ok told' =>
        rw [hka] at hruns
        exact .inl ((pushKeepalived_ok hka).2 hruns)

/-- A host that has been told to stand the balancer's mode down runs only the other
role. -/
theorem standDown_runs (mode : LbMode) :
    ((h.standDown mode).runsDnsdist = true → mode = .ipvs ∧ h.runsDnsdist = true) ∧
      ((h.standDown mode).runsKeepalived = true → mode = .dnsdist ∧ h.runsKeepalived = true) := by
  cases mode with
  | ipvs =>
      simp only [standDown, accepts_putKeepalived accepts_disabledKeepalived, orKeep]
      refine ⟨fun hruns => ⟨trivial, hruns⟩, fun hruns => ?_⟩
      exact absurd hruns (by simp [runsKeepalived, keepalivedEnabled_disabled])
  | dnsdist =>
      simp only [standDown, accepts_putDnsdist accepts_disabledDnsdist, orKeep]
      refine ⟨fun hruns => ?_, fun hruns => ⟨trivial, hruns⟩⟩
      exact absurd hruns (by simp [runsDnsdist, dnsdistEnabled_disabled])

end Stored

/-! ## What is planned -/

section Planned

variable {env : Environment} {db : Database} {lb : LoadBalancer} {plan : LbPlan}

theorem getLoadBalancer_of_mem (hlb : lb ∈ db.loadBalancers) :
    db.getLoadBalancer lb.id = some lb :=
  find?_key db.loadBalancerKeys hlb

/-- What asks for a role is accepted. -/
theorem enabled_of_toOption {Spec : Type} {decoded : Except Error Spec} {enabled : Spec → Bool}
    (h : decoded.toOption.any enabled = true) : ∃ spec, decoded = .ok spec ∧ enabled spec = true := by
  cases decoded with
  | error e => simp [Except.toOption] at h
  | ok spec => exact ⟨spec, rfl, by simpa [Except.toOption] using h⟩

/-- An enabled dnsdist spec is planned for an enabled dnsdist balancer. -/
theorem planned_dnsdist (hlb : lb ∈ db.loadBalancers) (hplan : lbPlan env db lb.id = some plan)
    {raw : Json Int} (hraw : plan.dnsdist = some raw) (hon : dnsdistEnabled raw = true) :
    lb.enabled = true ∧ lb.mode = .dnsdist := by
  obtain ⟨lb', agent, hlb', -, -, -, hdnsdist, -⟩ := exists_of_lbPlan hplan
  obtain rfl := Option.some.inj ((getLoadBalancer_of_mem hlb).symm.trans hlb')
  rw [hraw] at hdnsdist
  split at hdnsdist
  · cases hdnsdist
  · rename_i hmode
    obtain rfl := Option.some.inj hdnsdist
    obtain ⟨spec, hspec, henabled⟩ := enabled_of_toOption hon
    refine ⟨(Dnsdist.decode_dnsdistSpec hspec).1 ▸ henabled, ?_⟩
    cases hcase : lb.mode with
    | dnsdist => rfl
    | ipvs => exact absurd hcase hmode

/-- An enabled keepalived spec is planned for an enabled balancer in a zone with a VIP. -/
theorem planned_keepalived (hlb : lb ∈ db.loadBalancers) (hplan : lbPlan env db lb.id = some plan)
    {raw : Json Int} (hraw : plan.keepalived = some raw) (hon : keepalivedEnabled raw = true) :
    lb.enabled = true ∧ HasVip db.zones lb.zoneId := by
  obtain ⟨lb', agent, hlb', -, -, -, -, hkeepalived⟩ := exists_of_lbPlan hplan
  obtain rfl := Option.some.inj ((getLoadBalancer_of_mem hlb).symm.trans hlb')
  rw [hraw] at hkeepalived
  obtain ⟨zone, filled, hzone, hvip, hbuilt⟩ := plannedKeepalived_eq_some env db hkeepalived
  obtain ⟨spec, hspec, henabled⟩ := enabled_of_toOption hon
  refine ⟨Keepalived.enabled_of_keepalivedSpec hbuilt hspec ▸ henabled, ?_⟩
  obtain ⟨zoneId, hzoneId, hget⟩ := Option.bind_eq_some_iff.mp hzone
  obtain ⟨hmem, hid⟩ := getZone_some hget
  exact ⟨zone, hmem, hid ▸ hzoneId, hvip⟩

end Planned

/-! ## The system -/

structure State where
  plane : ControlPlane
  hosts : Nat → Stored

/-- A control plane whose agents have not been told anything. -/
def start (plane : ControlPlane) : State where
  plane := plane
  hosts := fun _ => ⟨none, none⟩

inductive Event where
  | createZone (vip : Option String) (routerId : Option Int) (others : Except HttpError Unit)
  | updateZone (id : Nat) (vip : Option (Option String)) (routerId : Option (Option Int))
      (others : Except HttpError Unit)
  | createLoadBalancer (payload : LoadBalancerCreate)
  | updateLoadBalancer (id : Nat) (data : LoadBalancerUpdate)
  /-- The host of the deleted balancer may be down. -/
  | deleteLoadBalancer (id : Nat) (reachable : Bool)
  /-- A full pass that reaches some hosts. -/
  | pass (reachable : Nat → Bool)

variable (env : Environment)

/-- The plan of one balancer is made, and run if its host answers. -/
def reconcile (db : Database) (reachable : Nat → Bool) (hosts : Nat → Stored)
    (lb : LoadBalancer) : Nat → Stored :=
  match lbPlan env db lb.id with
  | none => hosts
  | some plan =>
      if reachable plan.agentId then
        Function.update hosts plan.agentId ((hosts plan.agentId).runLbPlan plan)
      else hosts

namespace State

/-- A pass.  Reconciling the hosts pushes neither of the two roles; the balancers are
reconciled after it. -/
def runPass (s : State) (reachable : Nat → Bool) : State :=
  { s with hosts := after (reconcile env s.plane.db reachable) s.hosts s.plane.db.loadBalancers }

/-- `delete_load_balancer`: the row, then the host. -/
def delete (s : State) (id : Nat) (reachable : Bool) : State :=
  match s.plane.db.getLoadBalancer id with
  | none => s
  | some lb =>
      { plane := s.plane.afterwards (s.plane.deleteLoadBalancer id)
        hosts :=
          if reachable then
            Function.update s.hosts lb.agentId ((s.hosts lb.agentId).standDown lb.mode)
          else s.hosts }

def step (s : State) : Event → State
  | .createZone vip routerId others =>
      { s with plane := (s.plane.createZone env vip routerId others).1 }
  | .updateZone id vip routerId others =>
      { s with plane := (s.plane.updateZone env id vip routerId others).1 }
  | .createLoadBalancer payload =>
      { s with plane := s.plane.afterwards (s.plane.createLoadBalancer payload) }
  | .updateLoadBalancer id data =>
      { s with plane := s.plane.afterwards (s.plane.updateLoadBalancer id data) }
  | .deleteLoadBalancer id reachable => s.delete id reachable
  | .pass reachable => s.runPass env reachable

end State

/-! ## The law -/

/-- Each role of an agent runs only for a balancer that asks for it. -/
structure NoOrphan (s : State) : Prop where
  dnsdist : ∀ agent ∈ s.plane.db.agents, (s.hosts agent.id).runsDnsdist = true →
    ∃ lb ∈ s.plane.db.loadBalancers,
      lb.agentId = agent.id ∧ lb.enabled = true ∧ lb.mode = .dnsdist
  keepalived : ∀ agent ∈ s.plane.db.agents, (s.hosts agent.id).runsKeepalived = true →
    ∃ lb ∈ s.plane.db.loadBalancers,
      lb.agentId = agent.id ∧ lb.enabled = true ∧ HasVip s.plane.db.zones lb.zoneId

/-- A pass that reaches every agent leaves no role without its balancer. -/
def PassSettles (s : State) : Event → Prop
  | .pass reachable => (∀ agent ∈ s.plane.db.agents, reachable agent.id = true) →
      NoOrphan (s.step env (.pass reachable))
  | _ => True

/-- What the host of a balancer runs is asked for by it, as far as the agent refuses the
specs the balancer is planned. -/
structure TakenOrAsked (s : State) (lb : LoadBalancer) : Prop where
  dnsdist : ¬(∃ plan, lbPlan env s.plane.db lb.id = some plan ∧ Stored.TakesDnsdist plan) →
    (s.hosts lb.agentId).runsDnsdist = true → lb.enabled = true ∧ lb.mode = .dnsdist
  keepalived : ¬(∃ plan, lbPlan env s.plane.db lb.id = some plan ∧ Stored.TakesDnsdist plan ∧
      Stored.TakesKeepalived plan) →
    (s.hosts lb.agentId).runsKeepalived = true →
      lb.enabled = true ∧ HasVip s.plane.db.zones lb.zoneId

/-- A host keeps running nothing when its balancer is taken away: a deleted balancer's
host runs only the role it is told to stand down, and is told; a moved balancer's old
host runs neither.  A pass that reaches every agent finds them willing. -/
def Tidy (s : State) : Event → Prop
  | .updateLoadBalancer id data => ∀ lb, s.plane.db.getLoadBalancer id = some lb →
      (updatedBalancer lb data).agentId ≠ lb.agentId →
      (∃ plane, s.plane.updateLoadBalancer id data = .ok plane) →
        (s.hosts lb.agentId).runsDnsdist = false ∧ (s.hosts lb.agentId).runsKeepalived = false
  | .deleteLoadBalancer id reachable => ∀ lb, s.plane.db.getLoadBalancer id = some lb →
      ((s.hosts lb.agentId).runsDnsdist = true → lb.mode = .dnsdist ∧ reachable = true) ∧
        ((s.hosts lb.agentId).runsKeepalived = true → lb.mode = .ipvs ∧ reachable = true)
  | .pass reachable => (∀ agent ∈ s.plane.db.agents, reachable agent.id = true) →
      ∀ lb ∈ s.plane.db.loadBalancers, TakenOrAsked env s lb
  | _ => True

/-! ## The invariant -/

def OneHost (lbs : List LoadBalancer) : Prop :=
  ∀ lb ∈ lbs, ∀ other ∈ lbs, lb.agentId = other.agentId → lb.id = other.id

/-- A host that runs one of the roles has a balancer. -/
def Attended (s : State) : Prop :=
  ∀ id, (s.hosts id).runsDnsdist = true ∨ (s.hosts id).runsKeepalived = true →
    ∃ lb ∈ s.plane.db.loadBalancers, lb.agentId = id

structure Consistent (s : State) : Prop where
  oneHost : OneHost s.plane.db.loadBalancers
  attended : Attended s

/-- With one balancer for each host the start is consistent. -/
theorem consistent_start {plane : ControlPlane} (h : OneHost plane.db.loadBalancers) :
    Consistent (start plane) := by
  refine ⟨h, fun id hruns => ?_⟩
  simp [start, Stored.runsDnsdist, Stored.runsKeepalived] at hruns

/-! ### A pass -/

section Pass

variable {env} {s : State}

/-- The agents of the balancers are distinct then. -/
theorem agentIds_nodup {db : Database} (h : OneHost db.loadBalancers) :
    (db.loadBalancers.map (·.agentId)).Nodup := by
  refine List.Nodup.map_on (fun lb hlb other hother heq => ?_) (List.Nodup.of_map _ db.loadBalancerKeys)
  exact List.inj_on_of_nodup_map db.loadBalancerKeys hlb hother (h lb hlb other hother heq)

/-- What a pass does to the host of a balancer. -/
def visit (env : Environment) (db : Database) (reachable : Nat → Bool) (lb : LoadBalancer)
    (h : Stored) : Stored :=
  match lbPlan env db lb.id with
  | none => h
  | some plan => if reachable lb.agentId then h.runLbPlan plan else h

/-- A pass visits the host of a balancer, and no other for it. -/
theorem reconcile_eq {db : Database} (reachable : Nat → Bool) {lb : LoadBalancer}
    (hlb : lb ∈ db.loadBalancers) (hosts : Nat → Stored) :
    reconcile env db reachable hosts lb =
      Function.update hosts lb.agentId (visit env db reachable lb (hosts lb.agentId)) := by
  unfold reconcile visit
  split
  · rw [Function.update_eq_self]
  · rename_i plan hplan
    obtain ⟨lb', agent, hlb', hagent, hid, -⟩ := exists_of_lbPlan hplan
    obtain rfl := Option.some.inj ((getLoadBalancer_of_mem hlb).symm.trans hlb')
    rw [hid, (getAgent_some hagent).2]
    split
    · rfl
    · rw [Function.update_eq_self]

/-- A pass visits the host of every balancer once and no other host. -/
theorem runPass_hosts (h : OneHost s.plane.db.loadBalancers) (reachable : Nat → Bool) :
    (∀ lb ∈ s.plane.db.loadBalancers, (s.runPass env reachable).hosts lb.agentId =
      visit env s.plane.db reachable lb (s.hosts lb.agentId)) ∧
    ∀ id, id ∉ s.plane.db.loadBalancers.map (·.agentId) →
      (s.runPass env reachable).hosts id = s.hosts id :=
  after_cells (fun _ hlb => reconcile_eq reachable hlb) (agentIds_nodup h) s.hosts

/-- A pass keeps the state consistent. -/
theorem consistent_runPass (h : Consistent s) (reachable : Nat → Bool) :
    Consistent (s.runPass env reachable) := by
  refine ⟨h.oneHost, fun id hruns => ?_⟩
  by_cases hid : id ∈ s.plane.db.loadBalancers.map (·.agentId)
  · obtain ⟨lb, hlb, heq⟩ := List.mem_map.mp hid
    exact ⟨lb, hlb, heq⟩
  · rw [(runPass_hosts h.oneHost reachable).2 id hid] at hruns
    exact h.attended id hruns

/-- **A pass settles the host of a balancer** that it reaches: what runs there afterwards
the balancer asks for. -/
theorem visit_asked {lb : LoadBalancer} (hlb : lb ∈ s.plane.db.loadBalancers)
    (htaken : TakenOrAsked env s lb) {reachable : Nat → Bool}
    (hreachable : reachable lb.agentId = true) :
    ((visit env s.plane.db reachable lb (s.hosts lb.agentId)).runsDnsdist = true →
      lb.enabled = true ∧ lb.mode = .dnsdist) ∧
    ((visit env s.plane.db reachable lb (s.hosts lb.agentId)).runsKeepalived = true →
      lb.enabled = true ∧ HasVip s.plane.db.zones lb.zoneId) := by
  unfold visit
  cases hplan : lbPlan env s.plane.db lb.id with
  | none =>
      refine ⟨htaken.dnsdist ?_, htaken.keepalived ?_⟩
      · rintro ⟨plan, hsome, -⟩
        cases hplan.symm.trans hsome
      · rintro ⟨plan, hsome, -⟩
        cases hplan.symm.trans hsome
  | some plan =>
      simp only [hreachable, if_true]
      refine ⟨fun hruns => ?_, fun hruns => ?_⟩
      · rcases Stored.runLbPlan_dnsdist hruns with ⟨raw, hraw, hon⟩ | ⟨hrefused, hbefore⟩
        · exact planned_dnsdist hlb hplan hraw hon
        · refine htaken.dnsdist ?_ hbefore
          rintro ⟨other, hother, htakes⟩
          obtain rfl := Option.some.inj (hplan.symm.trans hother)
          exact hrefused htakes
      · rcases Stored.runLbPlan_keepalived hruns with ⟨raw, hraw, hon⟩ | ⟨hrefused, hbefore⟩
        · exact planned_keepalived hlb hplan hraw hon
        · refine htaken.keepalived ?_ hbefore
          rintro ⟨other, hother, htakes⟩
          obtain rfl := Option.some.inj (hplan.symm.trans hother)
          exact hrefused htakes

/-- A pass that reaches every host leaves no role behind. -/
theorem noOrphan_runPass (h : Consistent s) {reachable : Nat → Bool}
    (hreachable : ∀ agent ∈ s.plane.db.agents, reachable agent.id = true)
    (htaken : ∀ lb ∈ s.plane.db.loadBalancers, TakenOrAsked env s lb) :
    NoOrphan (s.runPass env reachable) := by
  have hkept : Consistent (s.runPass env reachable) := consistent_runPass h reachable
  have hvisited : ∀ lb ∈ s.plane.db.loadBalancers, (s.runPass env reachable).hosts lb.agentId =
      visit env s.plane.db reachable lb (s.hosts lb.agentId) :=
    (runPass_hosts h.oneHost reachable).1
  refine ⟨fun agent hagent hruns => ?_, fun agent hagent hruns => ?_⟩
  · obtain ⟨lb, hlb, hhost⟩ := hkept.attended agent.id (.inl hruns)
    have hasked := visit_asked (s := s) hlb (htaken lb hlb) (hhost ▸ hreachable agent hagent)
    rw [← hhost, hvisited lb hlb] at hruns
    exact ⟨lb, hlb, hhost, hasked.1 hruns⟩
  · obtain ⟨lb, hlb, hhost⟩ := hkept.attended agent.id (.inr hruns)
    have hasked := visit_asked (s := s) hlb (htaken lb hlb) (hhost ▸ hreachable agent hagent)
    rw [← hhost, hvisited lb hlb] at hruns
    exact ⟨lb, hlb, hhost, hasked.2 hruns⟩

end Pass

/-! ### Requests -/

section Requests

variable {env} {s : State}

/-- Consistency depends on the balancers only. -/
theorem Consistent.plane (h : Consistent s) {plane : ControlPlane}
    (hlbs : plane.db.loadBalancers = s.plane.db.loadBalancers) :
    Consistent { s with plane := plane } :=
  ⟨hlbs ▸ h.oneHost, fun id hruns => hlbs ▸ h.attended id hruns⟩

/-- A zone that gets its VRRP settings leaves the balancers as they are. -/
theorem ensureVrrp_loadBalancers (plane : ControlPlane) (zone : Zone) :
    (plane.ensureVrrp env zone).1.db.loadBalancers = plane.db.loadBalancers := by
  unfold ensureVrrp
  split
  · rfl
  · split <;> rfl

/-- A new zone leaves the balancers as they were. -/
theorem createZone_loadBalancers (plane : ControlPlane) (vip : Option String)
    (routerId : Option Int) (others : Except HttpError Unit) :
    (plane.createZone env vip routerId others).1.db.loadBalancers = plane.db.loadBalancers := by
  unfold createZone
  split
  · rfl
  · exact ensureVrrp_loadBalancers _ _

/-- A changed zone leaves the balancers as they were. -/
theorem updateZone_loadBalancers (plane : ControlPlane) (id : Nat) (vip : Option (Option String))
    (routerId : Option (Option Int)) (others : Except HttpError Unit) :
    (plane.updateZone env id vip routerId others).1.db.loadBalancers = plane.db.loadBalancers := by
  unfold updateZone
  split
  · rfl
  · split
    · rfl
    · exact ensureVrrp_loadBalancers _ _

/-- A balancer that is created keeps the state consistent. -/
theorem consistent_create (h : Consistent s) (payload : LoadBalancerCreate) :
    Consistent { s with plane := s.plane.afterwards (s.plane.createLoadBalancer payload) } := by
  cases hresult : s.plane.createLoadBalancer payload with
  | error e => exact h
  | ok plane =>
      obtain ⟨lb, hlbs, -, -, -, hfits⟩ := createLoadBalancer_ok hresult
      refine ⟨?_, fun id hruns => ?_⟩
      · simp only [afterwards, hlbs]
        intro a ha b hb heq
        rcases mem_append_singleton.mp ha with ha' | rfl <;>
          rcases mem_append_singleton.mp hb with hb' | rfl
        · exact h.oneHost a ha' b hb' heq
        · exact absurd heq (hfits.host a ha')
        · exact absurd heq.symm (hfits.host b hb')
        · rfl
      · obtain ⟨other, hother, hid⟩ := h.attended id hruns
        simp only [afterwards, hlbs]
        exact ⟨other, List.mem_append_left _ hother, hid⟩

/-- Editing a row whose host no other row is on. -/
theorem oneHost_put {lbs : List LoadBalancer} {new : LoadBalancer} (h : OneHost lbs)
    (hid : new.id ∈ lbs.map (·.id))
    (hhost : ∀ other ∈ lbs, other.id ≠ new.id → other.agentId ≠ new.agentId) :
    OneHost (putRow (·.id) new lbs) := by
  intro a ha b hb heq
  rcases (mem_putRow hid).mp ha with rfl | ⟨ha', hane⟩ <;>
    rcases (mem_putRow hid).mp hb with rfl | ⟨hb', hbne⟩
  · rfl
  · exact absurd heq.symm (hhost b hb' hbne)
  · exact absurd heq (hhost a ha' hane)
  · exact h a ha' b hb' heq

/-- A changed balancer keeps the hosts consistent, when its old host is told. -/
theorem consistent_update (h : Consistent s) {id : Nat} {data : LoadBalancerUpdate}
    (htidy : Tidy env s (.updateLoadBalancer id data)) :
    Consistent { s with plane := s.plane.afterwards (s.plane.updateLoadBalancer id data) } := by
  cases hresult : s.plane.updateLoadBalancer id data with
  | error e => exact h
  | ok plane =>
      obtain ⟨lb, hget, hlbs, -, -, hplace⟩ := updateLoadBalancer_ok hresult
      obtain ⟨hlb, -⟩ := getLoadBalancer_some hget
      have hkey : (updatedBalancer lb data).id ∈ s.plane.db.loadBalancers.map (·.id) :=
        List.mem_map_of_mem (f := (·.id)) hlb
      have hhost : ∀ other ∈ s.plane.db.loadBalancers, other.id ≠ (updatedBalancer lb data).id →
          other.agentId ≠ (updatedBalancer lb data).agentId := by
        intro other hother hne
        rcases hplace with hfits | ⟨-, hsame, -⟩
        · exact hfits.host other (List.mem_filter.mpr ⟨hother, decide_eq_true hne⟩)
        · rw [hsame]
          exact fun heq => hne (h.oneHost other hother lb hlb heq)
      refine ⟨?_, fun host hruns => ?_⟩
      · simp only [afterwards, hlbs]
        exact oneHost_put h.oneHost hkey hhost
      · obtain ⟨other, hother, hattends⟩ := h.attended host hruns
        simp only [afterwards, hlbs]
        by_cases hid : other.id = lb.id
        · -- the row itself: it has not moved, for its host is running
          obtain rfl := List.inj_on_of_nodup_map s.plane.db.loadBalancerKeys hother hlb hid
          refine ⟨updatedBalancer other data, (mem_putRow hkey).mpr (.inl rfl), ?_⟩
          by_contra hmoved
          obtain ⟨hdnsdist, hkeepalived⟩ := htidy other hget (hattends ▸ hmoved) ⟨plane, hresult⟩
          rw [hattends] at hdnsdist hkeepalived
          rcases hruns with hruns | hruns
          · exact absurd (hdnsdist.symm.trans hruns) (by decide)
          · exact absurd (hkeepalived.symm.trans hruns) (by decide)
        · exact ⟨other, (mem_putRow hkey).mpr (.inr ⟨hother, hid⟩), hattends⟩

/-- A deleted balancer keeps the hosts consistent, when its host is told. -/
theorem consistent_delete (h : Consistent s) {id : Nat} {reachable : Bool}
    (htidy : Tidy env s (.deleteLoadBalancer id reachable)) :
    Consistent (s.delete id reachable) := by
  unfold State.delete
  split
  · exact h
  · rename_i lb hget
    obtain ⟨hlb, hid⟩ := getLoadBalancer_some hget
    obtain ⟨hdnsdist, hkeepalived⟩ := htidy lb hget
    have hlbs : (s.plane.afterwards (s.plane.deleteLoadBalancer id)).db.loadBalancers =
        s.plane.db.loadBalancers.filter (·.id ≠ id) := by
      simp [ControlPlane.deleteLoadBalancer, hget, afterwards]
    refine ⟨?_, fun host hruns => ?_⟩
    · dsimp only
      rw [hlbs]
      intro a ha b hb heq
      exact h.oneHost a (List.mem_filter.mp ha).1 b (List.mem_filter.mp hb).1 heq
    · dsimp only at hruns ⊢
      rw [hlbs]
      have hother : host ≠ lb.agentId := by
        rintro rfl
        cases reachable with
        | false =>
            rcases hruns with hruns | hruns
            · cases (hdnsdist hruns).2
            · cases (hkeepalived hruns).2
        | true =>
            rw [if_pos rfl, Function.update_self] at hruns
            obtain ⟨hleft, hleft'⟩ := Stored.standDown_runs (h := s.hosts lb.agentId) lb.mode
            rcases hruns with hruns | hruns
            · obtain ⟨hmode, hbefore⟩ := hleft hruns
              cases hmode.symm.trans (hdnsdist hbefore).1
            · obtain ⟨hmode, hbefore⟩ := hleft' hruns
              cases hmode.symm.trans (hkeepalived hbefore).1
      have hsame : (if reachable then
          Function.update s.hosts lb.agentId ((s.hosts lb.agentId).standDown lb.mode)
          else s.hosts) host = s.hosts host := by
        split
        · exact Function.update_of_ne hother ..
        · rfl
      rw [hsame] at hruns
      obtain ⟨other, hmem, hattends⟩ := h.attended host hruns
      refine ⟨other, List.mem_filter.mpr ⟨hmem, ?_⟩, hattends⟩
      have hne : other.id ≠ id := by
        intro heq
        obtain rfl :=
          List.inj_on_of_nodup_map s.plane.db.loadBalancerKeys hmem hlb (heq.trans hid.symm)
        exact hother hattends.symm
      simpa using hne

end Requests

/-- Every event keeps the state consistent. -/
theorem consistent_step {s : State} (h : Consistent s) (e : Event) (htidy : Tidy env s e) :
    Consistent (s.step env e) := by
  cases e with
  | createZone vip routerId others => exact h.plane (createZone_loadBalancers ..)
  | updateZone id vip routerId others => exact h.plane (updateZone_loadBalancers ..)
  | createLoadBalancer payload => exact consistent_create h payload
  | updateLoadBalancer id data => exact consistent_update h htidy
  | deleteLoadBalancer id reachable => exact consistent_delete h htidy
  | pass reachable => exact consistent_runPass h reachable

/-- **No role outlives its balancer in tidy runs.**  Along every run from a control plane
whose agents have not been told anything, in which balancers are only taken away from
hosts that keep nothing running and each full pass finds its agents willing, every full
pass leaves each role of each agent with a balancer that asks for it. -/
theorem no_orphaned_role (plane : ControlPlane) (hhosts : OneHost plane.db.loadBalancers)
    (events : List Event) (hrun : Along (State.step env) (Tidy env) (start plane) events) :
    Along (State.step env) (PassSettles env) (start plane) events := by
  refine along_of_invariant _ ?_ (consistent_start hhosts) hrun
  intro s e hs htidy
  refine ⟨?_, consistent_step env hs e htidy⟩
  cases e with
  | pass reachable => exact fun hreachable => noOrphan_runPass hs hreachable (htidy hreachable)
  | _ => trivial

/-! ## A deleted balancer -/

/-- A balancer of either mode in a zone with a VIP. -/
def vipPlane (mode : LbMode) : ControlPlane where
  db := { ipvsDatabase 1 with
    loadBalancers := [{ dnsdistBalancer 1 1 with mode := mode }]
    loadBalancerKeys := by simp }
  tokens := []
  tokenKeys := List.nodup_nil
  serverHosts := by simp [ipvsDatabase, managedServer, Database.agentIds]
  balancerHosts := by simp [ipvsDatabase, dnsdistBalancer, Database.agentIds]

/-- The balancer is reconciled, deleted while its host answers, and a pass follows. -/
def deleteReconciled : List Event :=
  [.pass fun _ => true, .deleteLoadBalancer 1 true, .pass fun _ => true]

theorem oneHost_vipPlane (mode : LbMode) : OneHost (vipPlane mode).db.loadBalancers := by
  intro lb hlb other hother _
  rw [List.mem_singleton.mp hlb, List.mem_singleton.mp hother]

/-- A direct-routing balancer leaves nothing behind. -/
theorem ipvs_deletion_settles :
    Along (State.step defaultEnvironment) (PassSettles defaultEnvironment) (start (vipPlane .ipvs))
      deleteReconciled := by
  refine no_orphaned_role defaultEnvironment (vipPlane .ipvs) (oneHost_vipPlane .ipvs)
    deleteReconciled ⟨?_, ?_, ?_, trivial⟩
  · intro _ lb _
    exact ⟨fun _ hruns => (by cases hruns), fun _ hruns => (by cases hruns)⟩
  · intro lb hlb
    obtain rfl := Option.some.inj hlb
    refine ⟨fun hruns => ?_, fun _ => ⟨rfl, rfl⟩⟩
    exact absurd hruns (by decide +kernel)
  · intro _ lb hlb
    cases hlb

/-- The VIP of a deleted dnsdist balancer stays up. -/
theorem vip_outlives_balancer :
    ¬ ∀ (env : Environment) (plane : ControlPlane) (events : List Event),
      OneHost plane.db.loadBalancers →
        Along (State.step env) (PassSettles env) (start plane) events := by
  intro h
  obtain ⟨-, -, hlast, -⟩ :=
    h defaultEnvironment (vipPlane .dnsdist) deleteReconciled (oneHost_vipPlane .dnsdist)
  obtain ⟨lb, hlb, -⟩ := (hlast fun _ _ => rfl).keepalived ⟨1, "10.0.0.11"⟩ (by decide +kernel)
    (by decide +kernel)
  cases hlb

end AdguardAdmin.BalancerHosts
