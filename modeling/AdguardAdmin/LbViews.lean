import AdguardAdmin.MergedViews
import AdguardAdmin.ServerEdits
/-!
# What balancers think of a server

`_record_lb` merges what a reconciled balancer reported into `lb_state`, a document of
each server of the pool it was planned with.  The document lists a view for each
balancer and carries totals over the listed views.  Nothing takes a view out again.

`UpToDate` says that nothing outdated is listed, and `Keeps` what a request or a record
has to find for it to stay true.  `settles_iff` is the result about one pass: it makes
the documents right exactly when they are up to date before it.
-/

namespace AdguardAdmin.LbViews

open RunLaws TableIds MergedViews ControlPlane
open Registry (HttpError)

/-! ## Documents -/

/-- What one balancer thinks of a backend. -/
structure View (Rate : Type) where
  id : Nat
  mode : LbMode
  state : Option String
  drained : Bool
  qps : Option Rate
  enabled : Bool
  deriving DecidableEq, Repr

structure LbState (Rate : Type) where
  up : Nat
  down : Nat
  drained : Nat
  qps : Rate
  balancers : List (View Rate)
  deriving DecidableEq, Repr

/-- A live row of dnsdist. -/
structure LiveRow (Rate : Type) where
  name : Option String
  state : Option String
  drained : Bool
  qps : Option Rate

/-- A live row of the kernel balancer. -/
structure IpvsRow (Rate : Type) where
  name : Option String
  state : Option String
  drained : Bool
  inPps : Option Rate

/-- The rows of the two role states an outcome carries. -/
structure Report (Rate : Type) where
  dnsdist : List (LiveRow Rate)
  ipvs : List (IpvsRow Rate)

variable {Rate : Type}

/-- The live rows in one shape for both modes: packets a second become queries. -/
def Report.liveBackends (r : Report Rate) : List (LiveRow Rate) :=
  match r.dnsdist with
  | [] => r.ipvs.map fun b => ⟨b.name, b.state, b.drained, b.inPps⟩
  | rows => rows

/-- The live row of a name; the last one wins. -/
def Report.row (r : Report Rate) (name : String) : Option (LiveRow Rate) :=
  r.liveBackends.reverse.find? (·.name = some name)

def viewOf (lb : LoadBalancer) (r : Report Rate) (target : BackendTarget) : View Rate where
  id := lb.id
  mode := lb.mode
  state := (r.row target.name).bind (·.state)
  drained := ((r.row target.name).map (·.drained)).getD false
  qps := (r.row target.name).bind (·.qps)
  enabled := target.enabled

def balancersOf (st : Option (LbState Rate)) : List (View Rate) := (st.map (·.balancers)).getD []

/-- The balancers a document lists. -/
def ids (st : Option (LbState Rate)) : List Nat := (balancersOf st).map (·.id)

section Totals

variable [Zero Rate] (sum : List Rate → Rate)

/-- A document of views, with the totals over them. -/
def totalled (balancers : List (View Rate)) : LbState Rate where
  up := balancers.countP fun b => b.state = some "up" ∧ ¬ b.drained
  down := balancers.countP fun b => b.state = some "down"
  drained := balancers.countP fun b => b.drained
  qps := sum (balancers.map fun b => b.qps.getD 0)
  balancers := balancers

/-- The view takes the place of the balancer's last one, and the totals are taken again. -/
def merging : Merging (View Rate) Nat (Option (LbState Rate)) where
  key := (·.id)
  entries := balancersOf
  merge := fun st view => some (totalled sum (put (·.id) view (balancersOf st)))
  entries_merge := fun _ _ => rfl

end Totals

/-! ## The system -/

/-- The tables, the `lb_state` column of the server rows, and the plans of the
reconciles that have not recorded their outcome. -/
structure State (Rate : Type) where
  plane : ControlPlane
  lbState : Nat → Option (LbState Rate)
  planned : List LbPlan

/-- Tables in which no outcome has been recorded. -/
def start (plane : ControlPlane) : State Rate where
  plane := plane
  lbState := fun _ => none
  planned := []

inductive Event (Rate : Type) where
  | request (r : Request)
  | createServer (payload : ServerCreate)
  | updateServer (id : Nat) (data : ServerUpdate)
  | deleteServer (id : Nat) (others : Except HttpError Unit)
  | deleteAgent (id : Nat) (force : Bool)
  /-- The first half of `reconcile_load_balancer`. -/
  | plan (lbId : Nat)
  /-- The second half of one that has been planned; hosts report what they like. -/
  | record (i : Nat) (report : Report Rate)

namespace State

/-- Other tables: a row that stays keeps its column, a new row has none. -/
def withPlane (s : State Rate) (plane : ControlPlane) : State Rate :=
  { s with
    plane := plane
    lbState := fun id => if (s.plane.db.getServer id).isSome then s.lbState id else none }

def planLb (env : Environment) (s : State Rate) (lbId : Nat) : State Rate :=
  { s with planned := s.planned ++ (lbPlan env s.plane.db lbId).toList }

variable [Zero Rate] (p : Provisioner) (sum : List Rate → Rate) (s : State Rate)

/-- `_record_lb`, as far as servers are concerned: targets without a row are skipped. -/
def recordLb (plan : LbPlan) (report : Report Rate) : State Rate :=
  match s.plane.db.getLoadBalancer plan.lbId with
  | none => s
  | some lb =>
      { s with
        lbState := visit (merging sum) (·.serverId) (viewOf lb report)
          (plan.backends.filter fun b => (s.plane.db.getServer b.serverId).isSome) s.lbState }

def step : Event Rate → State Rate
  | .request r => s.withPlane (s.plane.serve p r)
  | .createServer payload =>
      s.withPlane (s.plane.afterwards (s.plane.createServer p.toEnvironment payload))
  | .updateServer id data =>
      s.withPlane (s.plane.afterwards (s.plane.updateServer p.toEnvironment id data))
  | .deleteServer id others => s.withPlane (s.plane.deleteServer id others).1
  | .deleteAgent id force => s.withPlane (s.plane.afterwards (s.plane.deleteAgent id force))
  | .plan lbId => s.planLb p.toEnvironment lbId
  | .record i report =>
      match s.planned[i]? with
      | none => s
      | some plan => recordLb sum { s with planned := s.planned.eraseIdx i } plan report

/-- `reconcile_load_balancer` with nothing in between. -/
def reconcile (report : Report Rate) (lbId : Nat) : State Rate :=
  (s.step p sum (.plan lbId)).step p sum (.record s.planned.length report)

/-- A pass over balancers, one after the other. -/
def pass (reports : Nat → Report Rate) (order : List Nat) : State Rate :=
  order.foldl (fun s id => s.reconcile p sum (reports id) id) s

end State

/-! ## The law -/

/-- The pool of a balancer takes in a row of the server table. -/
def Pools (env : Environment) (db : Database) (lb : LoadBalancer) (v : Server) : Prop :=
  lb.zoneId.isSome = true ∧ v.zoneId = lb.zoneId ∧ v.enabled = true ∧
    (backendTarget env db lb v).isSome = true

section Law

variable (env : Environment)

/-- What a step finds that leaves nothing outdated: no server is edited, and no balancer
edited or deleted, so that the server leaves the pool of a balancer it lists, and no
outcome is recorded for a server that has left the pool since it was planned. -/
def Keeps (s : State Rate) : Event Rate → Prop
  | .request (.updateLoadBalancer id data) => ∀ lb, s.plane.db.getLoadBalancer id = some lb →
      (∃ plane, s.plane.updateLoadBalancer id data = .ok plane) →
        ∀ v ∈ s.plane.db.servers, id ∈ ids (s.lbState v.id) →
          Pools env s.plane.db (updatedBalancer lb data) v
  | .request (.deleteLoadBalancer id) => ∀ v ∈ s.plane.db.servers, id ∉ ids (s.lbState v.id)
  | .updateServer id data => ∀ v new, s.plane.db.getServer id = some v →
      updatedServer env s.plane.db v data = .ok new →
        ∀ lb ∈ s.plane.db.loadBalancers, lb.id ∈ ids (s.lbState id) → Pools env s.plane.db lb new
  | .deleteAgent id force => (∃ plane, s.plane.deleteAgent id force = .ok plane) →
      ∀ v ∈ s.plane.db.servers, ∀ lb ∈ s.plane.db.loadBalancers, lb.id ∈ ids (s.lbState v.id) →
        lb.agentId ≠ id ∧ (v.agentId = some id → Pools env s.plane.db lb v.detached)
  | .record i _ => ∀ plan, s.planned[i]? = some plan →
      ∀ lb, s.plane.db.getLoadBalancer plan.lbId = some lb →
        ∀ b ∈ plan.backends, ∀ v, s.plane.db.getServer b.serverId = some v →
          Pools env s.plane.db lb v
  | _ => True

/-- A server lists only balancers whose pool it is in. -/
def UpToDate (s : State Rate) : Prop :=
  ∀ v ∈ s.plane.db.servers, ∀ id ∈ ids (s.lbState v.id),
    ∃ lb ∈ s.plane.db.loadBalancers, lb.id = id ∧ Pools env s.plane.db lb v

variable [Zero Rate] (sum : List Rate → Rate)

/-- Every server lists the balancers whose pool contains it, each once, and its totals are
taken over them. -/
structure Right (s : State Rate) : Prop where
  lists : ∀ v ∈ s.plane.db.servers, ∀ id, id ∈ ids (s.lbState v.id) ↔
    ∃ lb ∈ s.plane.db.loadBalancers, lb.id = id ∧
      v.id ∈ (desiredBackends env s.plane.db lb).map (·.serverId)
  once : ∀ v ∈ s.plane.db.servers, (ids (s.lbState v.id)).Nodup
  totals : ∀ v ∈ s.plane.db.servers, ∀ st, s.lbState v.id = some st →
    st = totalled sum st.balancers

/-- A pass that reconciles every existing balancer, in whichever order, and plans each of
them makes the documents right. -/
def Settles (p : Provisioner) (s : State Rate) : Prop :=
  ∀ order, order.Perm (s.plane.db.loadBalancers.map (·.id)) →
    (∀ id ∈ order, (lbPlan p.toEnvironment s.plane.db id).isSome = true) →
      ∀ reports, Right p.toEnvironment sum (s.pass p sum reports order)

/-- What holds of every document: a balancer is listed once, and the totals are taken
over what is listed. -/
def WellFormed (st : Option (LbState Rate)) : Prop :=
  (ids st).Nodup ∧ ∀ found, st = some found → found = totalled sum found.balancers

end Law

/-! ## Pools -/

section Pools

variable {env : Environment} {db db' : Database} {lb : LoadBalancer} {v : Server}

/-- A server whose address is known gets a target. -/
theorem backendTarget_isSome_iff : (backendTarget env db lb v).isSome = true ↔
    ∃ address port, backendEndpoint env db lb v = some (address, port) ∧ address ≠ "" := by
  constructor
  · intro hsome
    obtain ⟨b, hb⟩ := Option.isSome_iff_exists.mp hsome
    obtain ⟨hendpoint, hne, -⟩ := backendTarget_eq_some hb
    exact ⟨b.address, b.port, hendpoint, hne⟩
  · rintro ⟨address, port, hendpoint, hne⟩
    simp [backendTarget, hendpoint, hne]

/-- The pool is made of the rows it takes in. -/
theorem mem_pool_iff (hv : v ∈ db.servers) :
    v.id ∈ (desiredBackends env db lb).map (·.serverId) ↔ Pools env db lb v := by
  constructor
  · intro hmem
    obtain ⟨b, hb, hid⟩ := List.mem_map.mp hmem
    obtain ⟨w, hw, hzone, hsame, henabled, htarget⟩ := mem_desiredBackends hb
    have hserver := (backendTarget_eq_some htarget).2.2.1
    obtain rfl := db.server_eq_of_id_eq hw hv (hserver.symm.trans hid)
    exact ⟨hzone, hsame, henabled, by simp [htarget]⟩
  · rintro ⟨hzone, hsame, henabled, htarget⟩
    obtain ⟨zid, hzid⟩ := Option.isSome_iff_exists.mp hzone
    obtain ⟨b, hb⟩ := Option.isSome_iff_exists.mp htarget
    have hrow : v ∈ zoneServers db zid := by
      simp [zoneServers, hv, hsame, hzid, henabled]
    refine List.mem_map.mpr ⟨b, ?_, (backendTarget_eq_some hb).2.2.1⟩
    rw [desiredBackends, hzid]
    exact List.mem_filterMap.mpr ⟨v, hrow, hb⟩

/-- Other tables that agree on the host of a server do not change whether it is taken. -/
theorem pools_congr (hhost : ∀ host, v.agentId = some host → db'.getAgent host = db.getAgent host) :
    Pools env db' lb v ↔ Pools env db lb v := by
  have hendpoint : (backendEndpoint env db' lb v).map (·.1) =
      (backendEndpoint env db lb v).map (·.1) := by
    unfold backendEndpoint
    cases hagent : v.agentId with
    | none => rfl
    | some host =>
        dsimp only
        rw [hhost host hagent, Option.map_map, Option.map_map]
        congr 1
        funext agent
        simp only [Function.comp_apply]
        split
        · rfl
        · split <;> rfl
  have htarget : ∀ db'' : Database, (backendTarget env db'' lb v).isSome = true ↔
      ∃ address, (backendEndpoint env db'' lb v).map (·.1) = some address ∧ address ≠ "" := by
    intro db''
    rw [backendTarget_isSome_iff]
    constructor
    · rintro ⟨address, port, heq, hne⟩
      exact ⟨address, by rw [heq]; rfl, hne⟩
    · rintro ⟨address, heq, hne⟩
      obtain ⟨⟨a, port⟩, hendpoint', rfl⟩ := Option.map_eq_some_iff.mp heq
      exact ⟨a, port, hendpoint', hne⟩
  unfold Pools
  rw [htarget, htarget, hendpoint]

end Pools

/-! ## A pass -/

section Pass

variable [Zero Rate] {p : Provisioner} {sum : List Rate → Rate} {s : State Rate}

/-- A plan is that of its balancer. -/
theorem lbPlan_lbId {env : Environment} {db : Database} {id : Nat} {plan : LbPlan}
    (h : lbPlan env db id = some plan) : plan.lbId = id := by
  obtain ⟨lb, hlb, h⟩ := Option.bind_eq_some_iff.mp h
  obtain ⟨agent, -, h⟩ := Option.bind_eq_some_iff.mp h
  obtain ⟨keepalived, -, h⟩ := Option.bind_eq_some_iff.mp h
  obtain rfl := Option.some.inj h
  exact (getLoadBalancer_some hlb).2

/-- What a reconcile of a balancer makes of the documents, when it is planned. -/
def visited (env : Environment) (db : Database) (sum : List Rate → Rate)
    (reports : Nat → Report Rate) (docs : Nat → Option (LbState Rate)) (id : Nat) :
    Nat → Option (LbState Rate) :=
  match db.getLoadBalancer id with
  | none => docs
  | some lb =>
      visit (merging sum) (·.serverId) (viewOf lb (reports id)) (desiredBackends env db lb) docs

/-- A balancer that has a plan is reconciled on its own. -/
theorem reconcile_eq {reports : Nat → Report Rate} {id : Nat}
    (hplan : (lbPlan p.toEnvironment s.plane.db id).isSome = true) :
    s.reconcile p sum (reports id) id =
      { s with lbState := visited p.toEnvironment s.plane.db sum reports s.lbState id } := by
  obtain ⟨plan, hplan⟩ := Option.isSome_iff_exists.mp hplan
  obtain ⟨lb, -, hlb, -, -, hbackends, -, -⟩ := exists_of_lbPlan hplan
  have hid := lbPlan_lbId hplan
  have hfilter : (plan.backends.filter fun b => (s.plane.db.getServer b.serverId).isSome) =
      desiredBackends p.toEnvironment s.plane.db lb := by
    rw [hbackends, List.filter_eq_self]
    intro b hb
    obtain ⟨w, hw, -, -, -, htarget⟩ := mem_desiredBackends hb
    rw [(backendTarget_eq_some htarget).2.2.1, getServer_of_mem hw]
    rfl
  have hplanned : (s.planned ++ [plan])[s.planned.length]? = some plan := by simp
  have herase : (s.planned ++ [plan]).eraseIdx s.planned.length = s.planned := by
    simp [List.eraseIdx_append_of_length_le]
  simp only [State.reconcile, State.step, State.planLb, hplan, Option.toList_some, hplanned,
    herase, State.recordLb, hid, hlb, visited, hfilter]

/-- A pass records the report of each balancer in its order. -/
theorem pass_eq {reports : Nat → Report Rate} {order : List Nat}
    (hplans : ∀ id ∈ order, (lbPlan p.toEnvironment s.plane.db id).isSome = true) :
    s.pass p sum reports order =
      { s with lbState :=
          order.foldl (visited p.toEnvironment s.plane.db sum reports) s.lbState } := by
  induction order generalizing s with
  | nil => rfl
  | cons id rest ih =>
      have hrest := @ih { s with
          lbState := visited p.toEnvironment s.plane.db sum reports s.lbState id }
        (fun other hother => hplans other (List.mem_cons_of_mem _ hother))
      rw [State.pass, List.foldl_cons, reconcile_eq (hplans id List.mem_cons_self), List.foldl_cons]
      exact hrest

/-- A merged view leaves the document well formed. -/
theorem wellFormed_merge (st : Option (LbState Rate)) (view : View Rate)
    (h : WellFormed sum st) : WellFormed sum ((merging sum).merge st view) := by
  constructor
  · exact (merging sum).nodup_keys_merge h.1 view
  · intro found hfound
    obtain rfl := Option.some.inj hfound
    rfl

/-- A visit has the views of the pool. -/
theorem visits_visited (env : Environment) (db : Database) (reports : Nat → Report Rate)
    (id : Nat) :
    Visits (merging sum) (fun id v => ∃ lb, db.getLoadBalancer id = some lb ∧
      v ∈ (desiredBackends env db lb).map (·.serverId)) id (visited env db sum reports · id) := by
  intro docs v j
  unfold visited
  split
  · rename_i hnone
    simp [hnone]
  · rename_i lb hlb
    have hkey : ∀ b ∈ desiredBackends env db lb,
        (merging sum).key (viewOf lb (reports id) b) = id :=
      fun _ _ => (getLoadBalancer_some hlb).2
    rw [mem_keys_visit (merging sum) hkey docs]
    simp [hlb]

/-- The documents that a pass leaves list a balancer once and have the totals over what
they list. -/
theorem wellFormed_visited {env : Environment} {db : Database} {reports : Nat → Report Rate}
    (order : List Nat) {docs : Nat → Option (LbState Rate)} (h : ∀ id, WellFormed sum (docs id)) :
    ∀ id, WellFormed sum (order.foldl (visited env db sum reports) docs id) := by
  have hvisited : ∀ id, ∀ docs : Nat → Option (LbState Rate), (∀ v, WellFormed sum (docs v)) →
      ∀ v, WellFormed sum (visited env db sum reports docs id v) := by
    intro id docs hdocs
    cases hlb : db.getLoadBalancer id with
    | none => simpa only [visited, hlb] using hdocs
    | some lb =>
        simp only [visited, hlb]
        exact visit_keeps (merging sum) wellFormed_merge hdocs
  induction order generalizing docs with
  | nil => exact h
  | cons id rest ih =>
      rw [List.foldl_cons]
      exact ih (hvisited id docs h)

omit [Zero Rate] in
/-- The balancers a pass visits are those with a row. -/
theorem mem_order_iff {order : List Nat}
    (horder : order.Perm (s.plane.db.loadBalancers.map (·.id))) {id v : Nat} :
    (id ∈ order ∧ ∃ lb, s.plane.db.getLoadBalancer id = some lb ∧
        v ∈ (desiredBackends p.toEnvironment s.plane.db lb).map (·.serverId)) ↔
      ∃ lb ∈ s.plane.db.loadBalancers, lb.id = id ∧
        v ∈ (desiredBackends p.toEnvironment s.plane.db lb).map (·.serverId) := by
  constructor
  · rintro ⟨-, lb, hlb, hpool⟩
    obtain ⟨hmem, hid⟩ := getLoadBalancer_some hlb
    exact ⟨lb, hmem, hid, hpool⟩
  · rintro ⟨lb, hmem, rfl, hpool⟩
    exact ⟨horder.mem_iff.mpr (List.mem_map_of_mem hmem), lb,
      find?_key s.plane.db.loadBalancerKeys hmem, hpool⟩

/-- What a server lists after a pass is right exactly when nothing outdated was listed. -/
theorem lists_after_iff {order : List Nat}
    (horder : order.Perm (s.plane.db.loadBalancers.map (·.id)))
    (hplans : ∀ id ∈ order, (lbPlan p.toEnvironment s.plane.db id).isSome = true)
    (reports : Nat → Report Rate) {v : Server} (hv : v ∈ s.plane.db.servers) :
    (∀ id, id ∈ ids ((s.pass p sum reports order).lbState v.id) ↔
        ∃ lb ∈ s.plane.db.loadBalancers, lb.id = id ∧
          v.id ∈ (desiredBackends p.toEnvironment s.plane.db lb).map (·.serverId)) ↔
      ∀ id ∈ ids (s.lbState v.id), ∃ lb ∈ s.plane.db.loadBalancers, lb.id = id ∧
        Pools p.toEnvironment s.plane.db lb v := by
  have hvisits : ∀ id ∈ order, Visits (merging sum) _ id
      (visited p.toEnvironment s.plane.db sum reports · id) :=
    fun id _ => visits_visited p.toEnvironment s.plane.db reports id
  have hpass := right_after_pass_iff hvisits s.lbState v.id
  simp only [mem_order_iff horder] at hpass
  rw [pass_eq hplans]
  refine hpass.trans ?_
  simp only [mem_pool_iff hv]
  exact Iff.rfl

/-- Documents that are up to date settle. -/
theorem settles_of_upToDate (hform : ∀ id, WellFormed sum (s.lbState id))
    (h : UpToDate p.toEnvironment s) : Settles sum p s := by
  intro order horder hplans reports
  have hafter : ∀ id, WellFormed sum ((s.pass p sum reports order).lbState id) := by
    rw [pass_eq hplans]
    exact wellFormed_visited order hform
  have hplane : (s.pass p sum reports order).plane = s.plane := by rw [pass_eq hplans]
  refine ⟨fun v hv => ?_, fun v _ => (hafter v.id).1, fun v _ => (hafter v.id).2⟩
  rw [hplane] at hv ⊢
  exact (lists_after_iff horder hplans reports hv).mpr (h v hv)

omit [Zero Rate] in
/-- With a key to encrypt with, every balancer is planned. -/
theorem planned_of_encrypts (hencrypts : ∀ text, (p.encryptSecret text).isSome = true)
    {lb : LoadBalancer} (hlb : lb ∈ s.plane.db.loadBalancers) :
    (lbPlan p.toEnvironment s.plane.db lb.id).isSome = true := by
  obtain ⟨agent, hagent⟩ := List.mem_map.mp (s.plane.balancerHosts lb hlb)
  have hget : s.plane.db.getAgent lb.agentId = some agent := by
    rw [← hagent.2]
    exact find?_key s.plane.db.agentKeys hagent.1
  have hauth : ∀ zone, (zoneVrrpAuth p.toEnvironment zone).isSome = true := by
    intro zone
    unfold zoneVrrpAuth
    split
    · exact hencrypts _
    · rename_i hstored
      cases henc : zone.vrrpAuthEnc with
      | none => simp [henc] at hstored
      | some enc => rfl
  have hkeepalived : (plannedKeepalived p.toEnvironment s.plane.db lb agent).isSome = true := by
    unfold plannedKeepalived
    split
    · rfl
    · split
      · rfl
      · rw [Option.isSome_map, ensureZoneVrrp, Option.isSome_map]
        exact hauth _
  obtain ⟨keepalived, hkeepalived⟩ := Option.isSome_iff_exists.mp hkeepalived
  have hrow : s.plane.db.getLoadBalancer lb.id = some lb :=
    find?_key s.plane.db.loadBalancerKeys hlb
  simp [lbPlan, hrow, hget, hkeepalived]

/-- **A pass makes the documents right exactly when they are up to date.** -/
theorem settles_iff (hencrypts : ∀ text, (p.encryptSecret text).isSome = true)
    (hform : ∀ id, WellFormed sum (s.lbState id)) :
    Settles sum p s ↔ UpToDate p.toEnvironment s := by
  constructor
  · intro hsettles v hv
    have hplans : ∀ id ∈ s.plane.db.loadBalancers.map (·.id),
        (lbPlan p.toEnvironment s.plane.db id).isSome = true := by
      intro id hid
      obtain ⟨lb, hlb, rfl⟩ := List.mem_map.mp hid
      exact planned_of_encrypts hencrypts hlb
    have hright := hsettles _ (List.Perm.refl _) hplans fun _ => ⟨[], []⟩
    have hlists := hright.lists v
    rw [pass_eq hplans] at hlists
    have hiff := @lists_after_iff Rate _ p sum s _ (List.Perm.refl _) hplans
      (fun _ => ⟨[], []⟩) v hv
    rw [pass_eq hplans] at hiff
    exact hiff.mp (hlists hv)
  · exact settles_of_upToDate hform

end Pass

end AdguardAdmin.LbViews
