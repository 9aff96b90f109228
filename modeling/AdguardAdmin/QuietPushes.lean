import Mathlib
import AdguardAdmin.PushPasses
import AdguardAdmin.AgentUpdates
import AdguardAdmin.CanonicalJson
import AdguardAdmin.AdguardSpec
import AdguardAdmin.IpvsBackendRole
import AdguardAdmin.BalancerHosts
/-!
# Passes over hosts and balancers

The plan of a host tells its agent what AdGuard and the direct-routing backend should be, the
plan of a balancer what dnsdist and keepalived should be.  A spec is sent when its hash is not
the one the agent reports.  A role that is to stand down is sent the disabled spec while the
agent reports any hash for it, that of the disabled spec included.  An agent that is asked to
replace itself is sent nothing for its host in that pass.

* `quiet_iff` — which agents a second pass sends nothing.
-/

namespace AdguardAdmin.QuietPushes

open PushPasses GoText AgentUpdates

inductive Role where
  | adguard
  | ipvsBackend
  | dnsdist
  | keepalived
  deriving DecidableEq, Repr

/-- A role of an agent. -/
abbrev Key := Nat × Role

/-- The agent stores a spec that the role can decode, and refuses any other. -/
def accepts (key : Key) (raw : Json Int) : Bool :=
  match key.2 with
  | .adguard => (Adguard.decode raw).toOption.isSome
  | .ipvsBackend => (IpvsBackend.decode raw).toOption.isSome
  | .dnsdist => (Dnsdist.decode raw).toOption.isSome
  | .keepalived => (Keepalived.decode raw).toOption.isSome

/-! ## The plans -/

/-- The planned spec, or the one that stands the role down. -/
def orStandDown (key : Key) (disabled : Json Int) : Option (Json Int) → Want Key (Json Int)
  | some raw => .push key raw
  | none => .standDown key disabled

/-- `_run_agent_plan`: every server on the host, then the backend of direct routing; nothing, once
the agent has started to replace itself. -/
def agentWants (started : Bool) (plan : AgentPlan) : List (Want Key (Json Int)) :=
  if started = true then []
  else
    (plan.adguard.map fun entry => .push (plan.agentId, .adguard) entry.2.toJson) ++
      [orStandDown (plan.agentId, .ipvsBackend) disabledIpvsBackend plan.ipvsBackend]

/-- `_run_lb_plan` -/
def lbWants (plan : LbPlan) : List (Want Key (Json Int)) :=
  [orStandDown (plan.agentId, .dnsdist) disabledDnsdist plan.dnsdist,
    orStandDown (plan.agentId, .keepalived) disabledKeepalived plan.keepalived]

section Pass

variable {H : Type} [DecidableEq H] (digest : List Char → H)

/-- `spec_hash`; the agent's hash of what it has stored is the same. -/
def specHash (raw : Json Int) : H := digest (Canon.canonicalJson raw)

variable (env : Environment) (db : Database)

/-- The plans for some hosts and balancers; there is none where it cannot be made. -/
def tasks (started : Nat → Bool) (agents : List Agent) (balancers : List LoadBalancer) :
    List (List (Want Key (Json Int))) :=
  (agents.filterMap fun agent => (agentPlan env db agent.id).map (agentWants (started agent.id))) ++
    balancers.filterMap fun lb => (lbPlan env db lb.id).map lbWants

/-- What the agents have stored, and what their rows have of their builds. -/
structure State (H : Type) where
  stored : Key → Option H
  builds : Nat → Build

variable (settings : AgentUpdates.Settings) (manifest : Manifest)

/-- The self-update of an agent in a pass. -/
def State.selfUpdate (s : State H) (visits : Nat → Visit) (agentId : Nat) : SelfUpdate :=
  selfUpdateIfDue settings manifest (s.builds agentId) (visits agentId) false

/-- The agents that start to replace themselves in a pass. -/
def State.started (s : State H) (visits : Nat → Visit) (agentId : Nat) : Bool :=
  (s.selfUpdate settings manifest visits agentId).started

/-- `reconcile_hosts`, then `reconcile_balancers`: what is stored and recorded afterwards, and
the specs that were sent. -/
def reconcile (visits : Nat → Visit) (agents : List Agent) (balancers : List LoadBalancer)
    (s : State H) : State H × List (Key × Json Int) :=
  let (stored, puts) := runPass (specHash digest) accepts s.stored
    (tasks env db (s.started settings manifest visits) agents balancers)
  (⟨stored, fun id =>
      if id ∈ agents.map fun agent => agent.id then
        recordBuild (s.builds id) (visits id) (s.selfUpdate settings manifest visits id)
      else s.builds id⟩, puts)

/-- What a pass wants of the agents. -/
def Wanted (started : Nat → Bool) (w : Want Key (Json Int)) : Prop :=
  ∃ task ∈ tasks env db started db.agents db.loadBalancers, w ∈ task

/-- What the plan of a host wants of its agent. -/
def WantedOf (agentId : Nat) (w : Want Key (Json Int)) : Prop :=
  ∃ plan, agentPlan env db agentId = some plan ∧ w ∈ agentWants false plan

end Pass

/-! ## Specs that are told apart by their text -/

/-- The order in which the builders write the members of a spec. -/
def memberOrder : List String :=
  ["enabled", "install_method", "image", "network", "web_bind", "web_port", "dns_bind", "dns_port",
    "admin_username", "admin_password", "listen", "policy", "ecs", "cache", "max_entries",
    "healthcheck", "acl", "vip", "interface", "router_id", "priority", "auth_pass", "peers",
    "src_ip", "check_dns", "ipvs", "ports", "protocols", "algo", "backends", "check", "name",
    "address", "port", "weight", "order", "interval_s", "max_failures", "rise", "mode",
    "timeout_s", "retry"]

/-- An object is along the order when its members are. -/
theorem keysAlong_obj {fields : List (String × Json Int)}
    (hkeys : (fields.map Prod.fst).Sublist memberOrder)
    (hvalues : ∀ kv ∈ fields, Json.KeysAlong memberOrder kv.2) :
    Json.KeysAlong memberOrder (.obj fields) :=
  (Json.every_obj ..).mpr ⟨hkeys, hvalues⟩

theorem keysAlong_arr {items : List (Json Int)}
    (h : ∀ v ∈ items, Json.KeysAlong memberOrder v) : Json.KeysAlong memberOrder (.arr items) :=
  (Json.every_arr ..).mpr h

@[simp] theorem keysAlong_bool (b : Bool) : Json.KeysAlong (ν := Int) memberOrder (.bool b) :=
  trivial

@[simp] theorem keysAlong_num (n : Int) : Json.KeysAlong memberOrder (.num n) := trivial

@[simp] theorem keysAlong_str (s : String) : Json.KeysAlong (ν := Int) memberOrder (.str s) :=
  trivial

@[simp] theorem keysAlong_strs (items : List String) :
    Json.KeysAlong (ν := Int) memberOrder (.strs items) := by
  apply keysAlong_arr
  rw [List.forall_mem_map]
  exact fun s _ => keysAlong_str s

/-- An AdGuard spec is written along the order. -/
theorem keysAlong_adguard (spec : AdguardSpec) : Json.KeysAlong memberOrder spec.toJson := by
  apply keysAlong_obj
  · simp only [List.map_cons, List.map_nil]
    decide
  · simp

/-- The members of a loopback spec are in `memberOrder`. -/
theorem keysAlong_ipvsBackend (zone : Option Zone) (enabled : Bool) :
    Json.KeysAlong memberOrder (ipvsBackendSpec zone enabled) := by
  apply keysAlong_obj
  · simp only [List.map_cons, List.map_nil]
    decide
  · simp

/-- The members of a dnsdist spec are in `memberOrder`. -/
theorem keysAlong_dnsdist (env : Environment) (lb : LoadBalancer) (backends : List BackendTarget) :
    Json.KeysAlong memberOrder (dnsdistSpec env lb backends) := by
  have hcache : Json.KeysAlong memberOrder (.obj [
      ("enabled", .bool lb.cacheEnabled),
      ("max_entries", .num (orDefault lb.cacheMaxEntries 100000))]) :=
    keysAlong_obj (by simp only [List.map_cons, List.map_nil]; decide) (by simp)
  have hhealthcheck : Json.KeysAlong memberOrder (.obj [
      ("name", .str (orText lb.hcName "a.root-servers.net.")),
      ("interval_s", .num (orDefault lb.hcIntervalS 1)),
      ("max_failures", .num (orDefault lb.hcMaxFailures 3)),
      ("rise", .num (orDefault lb.hcRise 2)),
      ("mode", .str lb.hcMode.value)]) :=
    keysAlong_obj (by simp only [List.map_cons, List.map_nil]; decide) (by simp)
  have hbackends : Json.KeysAlong memberOrder
      (.arr ((backends.filter (·.enabled)).map dnsdistBackendJson)) := by
    apply keysAlong_arr
    rw [List.forall_mem_map]
    exact fun b _ => keysAlong_obj (by simp only [List.map_cons, List.map_nil]; decide) (by simp)
  apply keysAlong_obj
  · simp only [List.map_cons, List.map_nil]
    decide
  · simp [hcache, hhealthcheck, hbackends]

/-- The members of a spec of the kernel's balancer are in `memberOrder`. -/
theorem keysAlong_ipvs (lb : LoadBalancer) (zone : Zone) (backends : List BackendTarget) :
    Json.KeysAlong memberOrder (ipvsSpec lb zone backends) := by
  have hports : Json.KeysAlong (ν := Int) memberOrder (.arr [.num 53]) := by
    apply keysAlong_arr
    simp
  have hcheck : Json.KeysAlong memberOrder (.obj [
      ("interval_s", .num (orDefault lb.hcIntervalS 2)),
      ("timeout_s", .num 2),
      ("retry", .num (orDefault lb.hcMaxFailures 2))]) :=
    keysAlong_obj (by simp only [List.map_cons, List.map_nil]; decide) (by simp)
  have hbackends : Json.KeysAlong memberOrder
      (.arr ((backends.filter (·.enabled)).map ipvsBackendJson)) := by
    apply keysAlong_arr
    rw [List.forall_mem_map]
    exact fun b _ => keysAlong_obj (by simp only [List.map_cons, List.map_nil]; decide) (by simp)
  apply keysAlong_obj
  · simp only [List.map_cons, List.map_nil]
    decide
  · simp [hports, hcheck, hbackends]

/-- The members of a keepalived spec are in `memberOrder`. -/
theorem keysAlong_keepalived {env : Environment} {lb : LoadBalancer} {zone : Zone} {agent : Agent}
    {peers : List String} {backends : List BackendTarget} {raw : Json Int}
    (h : keepalivedSpec env lb zone agent peers backends = some raw) :
    Json.KeysAlong memberOrder raw := by
  unfold keepalivedSpec at h
  dsimp only at h
  by_cases hvip : zone.vip.getD "" = ""
  · rw [if_pos hvip] at h
    cases h
  · rw [if_neg hvip] at h
    obtain rfl := Option.some.inj h
    cases lb.mode with
    | dnsdist =>
        apply keysAlong_obj
        · simp only [reduceCtorEq, reduceIte, List.append_nil, List.map_cons, List.map_nil]
          decide
        · simp
    | ipvs =>
        apply keysAlong_obj
        · simp only [reduceIte, List.cons_append, List.nil_append, List.map_cons, List.map_nil]
          decide
        · simp [keysAlong_ipvs]

/-- What an agent's plan has for the loopback is a spec that asks for the address. -/
theorem ipvsBackend_of_agentPlan {env : Environment} {db : Database} {agentId : Nat}
    {plan : AgentPlan} (h : agentPlan env db agentId = some plan) {raw : Json Int}
    (hraw : plan.ipvsBackend = some raw) : ∃ zone, raw = ipvsBackendSpec zone true := by
  unfold agentPlan at h
  split at h
  · cases h
  · obtain rfl := Option.some.inj h
    obtain ⟨s, -, rfl⟩ := Option.map_eq_some_iff.mp hraw
    exact ⟨_, rfl⟩

/-- A push out of a plan is the planned spec. -/
theorem orStandDown_push {key key' : Key} {disabled raw : Json Int} {planned : Option (Json Int)}
    (h : .push key raw = orStandDown key' disabled planned) : planned = some raw := by
  cases planned with
  | none => cases h
  | some spec => rw [(Want.push.inj h).2]

/-- What is pushed comes from one of the builders. -/
theorem keysAlong_of_wanted {env : Environment} {db : Database} {started : Nat → Bool} {key : Key}
    {raw : Json Int} (h : Wanted env db started (.push key raw)) : Json.KeysAlong memberOrder raw := by
  obtain ⟨task, htask, hmem⟩ := h
  rcases List.mem_append.mp htask with hagent | hbalancer
  · obtain ⟨agent, -, hmapped⟩ := List.mem_filterMap.mp hagent
    obtain ⟨plan, hplan, rfl⟩ := Option.map_eq_some_iff.mp hmapped
    unfold agentWants at hmem
    split at hmem
    · cases hmem
    rcases List.mem_append.mp hmem with hadguard | hipvs
    · obtain ⟨entry, -, heq⟩ := List.mem_map.mp hadguard
      rw [← (Want.push.inj heq).2]
      exact keysAlong_adguard entry.2
    · have hraw := orStandDown_push (List.mem_singleton.mp hipvs)
      obtain ⟨zone, rfl⟩ := ipvsBackend_of_agentPlan hplan hraw
      exact keysAlong_ipvsBackend zone true
  · obtain ⟨lb, -, hmapped⟩ := List.mem_filterMap.mp hbalancer
    obtain ⟨plan, hplan, rfl⟩ := Option.map_eq_some_iff.mp hmapped
    obtain ⟨lb', agent, -, -, -, -, hdnsdist, hkeepalived⟩ := exists_of_lbPlan hplan
    rcases List.mem_cons.mp hmem with hfirst | hsecond
    · rw [orStandDown_push hfirst] at hdnsdist
      split at hdnsdist
      · cases hdnsdist
      · rw [Option.some.inj hdnsdist]
        exact keysAlong_dnsdist env lb' _
    · rw [orStandDown_push (List.mem_singleton.mp hsecond)] at hkeepalived
      obtain ⟨_, _, -, -, hbuilt⟩ := plannedKeepalived_eq_some env db hkeepalived
      exact keysAlong_keepalived hbuilt

/-! ## Who is told what -/

section Keys

variable {env : Environment} {db : Database} {started : Nat → Bool} {w : Want Key (Json Int)}

/-- Whose plan a key belongs to: that of the host, or that of a balancer. -/
def Role.ofHost : Role → Bool
  | .adguard | .ipvsBackend => true
  | .dnsdist | .keepalived => false

/-- What is told under a key has that key. -/
theorem key_orStandDown (key : Key) (disabled : Json Int) (planned : Option (Json Int)) :
    (orStandDown key disabled planned).key = key := by
  cases planned <;> rfl

/-- The plan of a host is about the roles of this host. -/
theorem key_of_agentWants {agentId : Nat} {plan : AgentPlan} {b : Bool}
    (hplan : agentPlan env db agentId = some plan) (h : w ∈ agentWants b plan) :
    w.key.1 = agentId ∧ w.key.2.ofHost = true := by
  have hid : plan.agentId = agentId := by
    unfold agentPlan at hplan
    split at hplan
    · cases hplan
    · next agent hagent =>
        obtain rfl := Option.some.inj hplan
        unfold Database.getAgent at hagent
        simpa using List.find?_some hagent
  unfold agentWants at h
  split at h
  · cases h
  · rcases List.mem_append.mp h with hadguard | hipvs
    · obtain ⟨entry, -, rfl⟩ := List.mem_map.mp hadguard
      exact ⟨hid, rfl⟩
    · rw [List.mem_singleton.mp hipvs, key_orStandDown]
      exact ⟨hid, rfl⟩

/-- The plan of a balancer is about the roles of balancers. -/
theorem key_of_lbWants {plan : LbPlan} (h : w ∈ lbWants plan) : w.key.2.ofHost = false := by
  rcases List.mem_cons.mp h with rfl | h
  · rw [key_orStandDown]
    rfl
  · rw [List.mem_singleton.mp h, key_orStandDown]
    rfl

/-- A task is that of a host which does not replace itself, empty, or that of a balancer. -/
theorem mem_tasks {agents : List Agent} {balancers : List LoadBalancer}
    {task : List (Want Key (Json Int))} :
    task ∈ tasks env db started agents balancers ↔
      (∃ agent ∈ agents, ∃ plan, agentPlan env db agent.id = some plan ∧
        agentWants (started agent.id) plan = task) ∨
      ∃ lb ∈ balancers, ∃ plan, lbPlan env db lb.id = some plan ∧ lbWants plan = task := by
  simp only [tasks, List.mem_append, List.mem_filterMap, Option.map_eq_some_iff]

/-- Agents that replace themselves want less. -/
theorem Wanted.mono {started' : Nat → Bool} (h : Wanted env db started w)
    (hless : ∀ id, started' id = true → started id = true) : Wanted env db started' w := by
  obtain ⟨task, htask, hw⟩ := h
  rcases mem_tasks.mp htask with ⟨agent, hagent, plan, hplan, rfl⟩ | hbalancer
  · refine ⟨_, mem_tasks.mpr (.inl ⟨agent, hagent, plan, hplan, rfl⟩), ?_⟩
    cases hstarted : started agent.id with
    | true =>
        rw [hstarted] at hw
        cases hw
    | false =>
        have hnot : started' agent.id = false := by
          by_contra hyes
          rw [hless _ (Bool.not_eq_false _ ▸ hyes)] at hstarted
          cases hstarted
        rwa [hnot, ← hstarted]
  · exact ⟨task, mem_tasks.mpr (.inr hbalancer), hw⟩

/-- The order of the hosts and of the balancers does not matter. -/
theorem wanted_iff_of_perm {agents : List Agent} {balancers : List LoadBalancer}
    (hagents : agents.Perm db.agents) (hbalancers : balancers.Perm db.loadBalancers)
    (w : Want Key (Json Int)) :
    Wanted env db started w ↔ ∃ task ∈ tasks env db started agents balancers, w ∈ task := by
  have hperm : (tasks env db started agents balancers).Perm
      (tasks env db started db.agents db.loadBalancers) :=
    (hagents.filterMap _).append (hbalancers.filterMap _)
  exact exists_congr fun task => and_congr_left fun _ => hperm.mem_iff.symm

end Keys

section Main

variable {H : Type} {digest : List Char → H} {env : Environment} {db : Database}

/-- Specs that are wanted and have one hash are one spec. -/
theorem eq_of_specHash {started : Nat → Bool} (hdigest : Function.Injective digest)
    {key key' : Key} {raw raw' : Json Int} (h : Wanted env db started (.push key raw))
    (h' : Wanted env db started (.push key' raw'))
    (hhash : specHash digest raw = specHash digest raw') : raw = raw' := by
  have horder : memberOrder.Nodup := by decide
  have hunique : raw.UniqueKeys := Json.uniqueKeys_of_keysAlong horder (keysAlong_of_wanted h)
  have hnormal := (Json.reordered_iff hunique).mp (Canon.canonicalJson_injective (hdigest hhash))
  exact Json.eq_of_normal_eq horder (keysAlong_of_wanted h) (keysAlong_of_wanted h') hnormal

section Twice

variable {started started' : Nat → Bool} {w : Want Key (Json Int)}

/-- The agents that replace themselves in one of two passes. -/
def either (started started' : Nat → Bool) (id : Nat) : Bool := started id || started' id

/-- What an agent is wanted for that replaces itself in the first of two passes only. -/
def Late (env : Environment) (db : Database) (started started' : Nat → Bool)
    (w : Want Key (Json Int)) : Prop :=
  ∃ agent ∈ db.agents, started agent.id = true ∧ started' agent.id = false ∧
    WantedOf env db agent.id w

/-- What the second pass wants was told in the first pass too, or is late. -/
theorem wanted_iff_told_or_late :
    Wanted env db started' w ↔
      Wanted env db (either started started') w ∨ Late env db started started' w := by
  constructor
  · rintro ⟨task, htask, hw⟩
    rcases mem_tasks.mp htask with ⟨agent, hagent, plan, hplan, rfl⟩ | hbalancer
    · have hsecond : started' agent.id = false := by
        by_contra hnot
        rw [Bool.eq_true_of_not_eq_false hnot] at hw
        cases hw
      rw [hsecond] at hw
      cases hfirst : started agent.id with
      | true => exact .inr ⟨agent, hagent, hfirst, hsecond, plan, hplan, hw⟩
      | false =>
          refine .inl ⟨_, mem_tasks.mpr (.inl ⟨agent, hagent, plan, hplan, rfl⟩), ?_⟩
          rwa [either, hfirst, hsecond]
    · exact .inl ⟨task, mem_tasks.mpr (.inr hbalancer), hw⟩
  · rintro (htold | ⟨agent, hagent, -, hsecond, plan, hplan, hw⟩)
    · exact htold.mono fun id hid => by rw [either, hid, Bool.or_true]
    · refine ⟨_, mem_tasks.mpr (.inl ⟨agent, hagent, plan, hplan, rfl⟩), ?_⟩
      rwa [hsecond]

/-- The cells of balancers, and of hosts whose agents replace themselves in neither pass. -/
def mine (started started' : Nat → Bool) (key : Key) : Bool :=
  !key.2.ofHost || !either started started' key.1

variable {agents : List Agent} {balancers : List LoadBalancer}

/-- A task of the first pass is about such cells only, or about others only. -/
theorem mine_or_not {task : List (Want Key (Json Int))}
    (htask : task ∈ tasks env db started agents balancers) :
    (∀ w ∈ task, mine started started' w.key = true) ∨
      ∀ w ∈ task, mine started started' w.key = false := by
  rcases mem_tasks.mp htask with ⟨agent, -, plan, hplan, rfl⟩ | ⟨lb, -, plan, -, rfl⟩
  · cases hid : either started started' agent.id with
    | true =>
        refine .inr fun w hw => ?_
        obtain ⟨hkey, hhost⟩ := key_of_agentWants hplan hw
        rw [mine, hkey, hhost, hid]
        rfl
    | false =>
        refine .inl fun w hw => ?_
        obtain ⟨hkey, -⟩ := key_of_agentWants hplan hw
        rw [mine, hkey, hid, Bool.not_false, Bool.or_true]
  · refine .inl fun w hw => ?_
    rw [mine, key_of_lbWants hw]
    rfl

/-- What is told in both passes is what the first one wants of these cells. -/
theorem wanted_either_iff (hagents : agents.Perm db.agents)
    (hbalancers : balancers.Perm db.loadBalancers) (w : Want Key (Json Int)) :
    Wanted env db (either started started') w ↔
      ∃ task ∈ (tasks env db started agents balancers).filter
        fun task => task.all (mine started started' ·.key), w ∈ task := by
  constructor
  · intro h
    obtain ⟨task, htask, hw⟩ := (wanted_iff_of_perm hagents hbalancers w).mp h
    rcases mem_tasks.mp htask with ⟨agent, hagent, plan, hplan, rfl⟩ | ⟨lb, hlb, plan, hplan, rfl⟩
    · have hneither : either started started' agent.id = false := by
        by_contra hnot
        rw [Bool.eq_true_of_not_eq_false hnot] at hw
        cases hw
      have hfirst : started agent.id = false := (Bool.or_eq_false_iff.mp hneither).1
      have hmem : agentWants (started agent.id) plan ∈ tasks env db started agents balancers :=
        mem_tasks.mpr (.inl ⟨agent, hagent, plan, hplan, rfl⟩)
      refine ⟨_, List.mem_filter.mpr ⟨hmem, ?_⟩, by rwa [hfirst, ← hneither]⟩
      rw [List.all_eq_true]
      intro w' hw'
      obtain ⟨hkey, -⟩ := key_of_agentWants hplan hw'
      rw [mine, hkey, hneither, Bool.not_false, Bool.or_true]
    · refine ⟨_, List.mem_filter.mpr ⟨mem_tasks.mpr (.inr ⟨lb, hlb, plan, hplan, rfl⟩), ?_⟩, hw⟩
      rw [List.all_eq_true]
      intro w' hw'
      rw [mine, key_of_lbWants hw']
      rfl
  · rintro ⟨task, htask, hw⟩
    obtain ⟨htask, hall⟩ := List.mem_filter.mp htask
    refine (wanted_iff_of_perm hagents hbalancers w).mpr ?_
    rcases mem_tasks.mp htask with ⟨agent, hagent, plan, hplan, rfl⟩ | hbalancer
    · obtain ⟨hkey, hhost⟩ := key_of_agentWants hplan hw
      have hmine := List.all_eq_true.mp hall w hw
      rw [mine, hkey, hhost, Bool.not_true, Bool.false_or, Bool.not_eq_true'] at hmine
      have hfirst : started agent.id = false := (Bool.or_eq_false_iff.mp hmine).1
      refine ⟨_, mem_tasks.mpr (.inl ⟨agent, hagent, plan, hplan, rfl⟩), ?_⟩
      rwa [hmine, ← hfirst]
    · exact ⟨task, mem_tasks.mpr (.inr hbalancer), hw⟩

variable [DecidableEq H] {stored : Key → Option H}

/-- What is told in both passes holds after the first one where it could be settled. -/
theorem told_holds_iff (hdigest : Function.Injective digest) (hagents : agents.Perm db.agents)
    (hbalancers : balancers.Perm db.loadBalancers) :
    (∀ w, Wanted env db (either started started') w → w.Holds (specHash digest)
        (runPass (specHash digest) accepts stored (tasks env db started agents balancers)).1) ↔
      Settles (specHash digest) accepts stored (Wanted env db (either started started')) := by
  have halike : Alike (specHash digest) accepts (Wanted env db (either started started')) := by
    intro key raw raw' hraw hraw' hhash
    rw [eq_of_specHash hdigest hraw hraw' hhash]
  have hiff : ∀ w, Wanted env db (either started started') w ↔
      ∃ task ∈ (tasks env db started agents balancers).filter
        fun task => task.all (mine started started' ·.key), w ∈ task :=
    wanted_either_iff hagents hbalancers
  rw [← holds_after_pass_iff halike hiff]
  refine forall_congr' fun w => forall_congr' fun hw => ?_
  obtain ⟨task, htask, hmem⟩ := (hiff w).mp hw
  have hmine : mine started started' w.key = true :=
    List.all_eq_true.mp (List.mem_filter.mp htask).2 w hmem
  exact Want.holds_congr (runPass_of_mine (fun _ => mine_or_not) (fun _ _ => rfl) hmine)

/-- What is late holds after the first pass where it held before. -/
theorem late_holds_iff (h : Late env db started started' w) :
    w.Holds (specHash digest)
        (runPass (specHash digest) accepts stored (tasks env db started agents balancers)).1 ↔
      w.Holds (specHash digest) stored := by
  obtain ⟨agent, -, hfirst, -, plan, hplan, hw⟩ := h
  obtain ⟨hkey, hhost⟩ := key_of_agentWants hplan hw
  refine Want.holds_congr (runPass_other fun task htask w' hw' heq => ?_)
  rcases mem_tasks.mp htask with ⟨agent', -, plan', hplan', rfl⟩ | ⟨lb, -, plan', -, rfl⟩
  · obtain ⟨hkey', -⟩ := key_of_agentWants hplan' hw'
    have hsame : agent'.id = agent.id := by rw [← hkey', heq, hkey]
    rw [hsame, hfirst] at hw'
    cases hw'
  · have hbalancer := key_of_lbWants hw'
    rw [heq, hhost] at hbalancer
    cases hbalancer

end Twice

/-- **When pushing comes to rest.**  After a pass over hosts and balancers, in whichever order,
a second one sends nothing exactly where every spec that is wanted in both is stored already or
accepted, all that want a role of a host want the same spec, and a role that is to stand down
has no spec stored; and where an agent that replaced itself in the first pass only has all that
its plan wants already. -/
theorem quiet_iff [DecidableEq H] (hdigest : Function.Injective digest) (env : Environment)
    (db : Database) (settings : AgentUpdates.Settings) (manifest : Manifest) (s : State H)
    (visits visits' : Nat → Visit) {agents agents' : List Agent}
    {balancers balancers' : List LoadBalancer}
    (hagents : agents.Perm db.agents) (hagents' : agents'.Perm db.agents)
    (hbalancers : balancers.Perm db.loadBalancers)
    (hbalancers' : balancers'.Perm db.loadBalancers) :
    (reconcile digest env db settings manifest visits' agents' balancers'
        (reconcile digest env db settings manifest visits agents balancers s).1).2 = [] ↔
      Settles (specHash digest) accepts s.stored
          (Wanted env db (either (s.started settings manifest visits)
            ((reconcile digest env db settings manifest visits agents balancers s).1.started
              settings manifest visits'))) ∧
        ∀ w, Late env db (s.started settings manifest visits)
            ((reconcile digest env db settings manifest visits agents balancers s).1.started
              settings manifest visits') w →
          w.Holds (specHash digest) s.stored := by
  generalize hstarted' : (reconcile digest env db settings manifest visits agents balancers
    s).1.started settings manifest visits' = started'
  have hsecond : (reconcile digest env db settings manifest visits' agents' balancers'
      (reconcile digest env db settings manifest visits agents balancers s).1).2 =
        (runPass (specHash digest) accepts (runPass (specHash digest) accepts s.stored
          (tasks env db (s.started settings manifest visits) agents balancers)).1
            (tasks env db started' agents' balancers')).2 := by
    rw [← hstarted']
    rfl
  rw [hsecond, puts_eq_nil_iff, ← told_holds_iff hdigest hagents hbalancers]
  constructor
  · intro hall
    have hwanted : ∀ w, Wanted env db started' w → w.Holds (specHash digest)
        (runPass (specHash digest) accepts s.stored
          (tasks env db (s.started settings manifest visits) agents balancers)).1 := by
      intro w hw
      obtain ⟨task, htask, hmem⟩ := (wanted_iff_of_perm hagents' hbalancers' w).mp hw
      exact hall task htask w hmem
    exact ⟨fun w hw => hwanted w (wanted_iff_told_or_late.mpr (.inl hw)),
      fun w hw => (late_holds_iff hw).mp (hwanted w (wanted_iff_told_or_late.mpr (.inr hw)))⟩
  · rintro ⟨htold, hlate⟩ task htask w hmem
    have hw := (wanted_iff_of_perm hagents' hbalancers' w).mpr ⟨task, htask, hmem⟩
    rcases wanted_iff_told_or_late.mp hw with hboth | hw
    · exact htold w hboth
    · exact (late_holds_iff hw).mpr (hlate w hw)

end Main

/-! ### Two passes -/

/-- Agents are kept on the build that is shipped. -/
def updating : AgentUpdates.Settings := ⟨true, 30, "http://10.0.0.2:8000"⟩

def shipped : Manifest := ⟨"0.2.0", [("linux/amd64", "ab")]⟩

/-- An agent of some version, which does as it is asked. -/
def agentOf (version : String) (now : Int) : Visit :=
  ⟨some version, some "amd64", fun _ => .ok none, now, now⟩

/-- What a first pass finds: agents that have stored some specs. -/
def found (stored : Key → Option (List Char)) : State (List Char) :=
  ⟨stored, fun _ => ⟨none, none, none, none⟩⟩

/-- Two passes over a fleet, with the agents' versions in each; what the second one sends. -/
def secondPass (db : Database) (stored : Key → Option (List Char)) (version version' : String) :
    List (Key × Json Int) :=
  (reconcile id defaultEnvironment db updating shipped (fun _ => agentOf version' 60000000)
    db.agents db.loadBalancers
    (reconcile id defaultEnvironment db updating shipped (fun _ => agentOf version 0)
      db.agents db.loadBalancers (found stored)).1).2

/-! ### A zone that lost its VIP -/

theorem oneAgent_distinct : ([⟨1, "10.0.0.11"⟩].map fun a : Agent => a.id).Nodup :=
  List.nodup_singleton _

/-- One host with an AdGuard and a balancer. -/
def oneHost : Database where
  zones := [⟨1, none, none, none⟩]
  agents := [⟨1, "10.0.0.11"⟩]
  servers := [{ managedServer 1 "dns-a" 1 with passwordEnc := some "secret" }]
  loadBalancers := [dnsdistBalancer 1 1]
  overrides := []
  zoneKeys := twoHosts.zoneKeys
  agentKeys := oneAgent_distinct
  serverKeys := by decide
  loadBalancerKeys := by decide

/-- The agent still has a spec for keepalived. -/
def hadVip : Key → Option (List Char) := fun key => if key = (1, .keepalived) then some [] else none

/-- A second pass over an unchanged database tells keepalived to stand down again. -/
theorem told_again :
    (secondPass oneHost hadVip "0.2.0" "0.2.0").map Prod.fst = [(1, .keepalived)] := by
  decide +kernel

-- an agent that replaces itself in the first pass is told about AdGuard in the second
example : (secondPass oneHost (fun _ => none) "0.1.0" "0.2.0").map Prod.fst = [(1, .adguard)] := by
  decide +kernel

/-- With a fresh agent on the shipped build the first pass settles everything. -/
theorem quiet_on_fresh_host :
    secondPass oneHost (fun _ => none) "0.2.0" "0.2.0" = [] ∧
      Settles (specHash id) accepts (fun _ => none) (Wanted defaultEnvironment oneHost
        (either ((found fun _ => none).started updating shipped fun _ => agentOf "0.2.0" 0)
          ((reconcile id defaultEnvironment oneHost updating shipped (fun _ => agentOf "0.2.0" 0)
            oneHost.agents oneHost.loadBalancers (found fun _ => none)).1.started updating shipped
              fun _ => agentOf "0.2.0" 60000000))) := by
  have hquiet : secondPass oneHost (fun _ => none) "0.2.0" "0.2.0" = [] := by decide +kernel
  refine ⟨hquiet, ?_⟩
  exact ((quiet_iff Function.injective_id defaultEnvironment oneHost updating shipped
    (found fun _ => none) (fun _ => agentOf "0.2.0" 0) (fun _ => agentOf "0.2.0" 60000000)
    (.refl _) (.refl _) (.refl _) (.refl _)).mp hquiet).1

end AdguardAdmin.QuietPushes
