import AdguardAdmin.LbViews
/-!
# Runs of requests and reconciles

The tables change under the documents that balancers have written.  A request that adds
rows or takes away a server outdates nothing (`Harmless`); one that edits a row or takes
away a balancer may, and so may the record of an outcome that was planned before the
tables changed.

* `upToDate_step_iff` — the exact condition on one step;
* `views_settle_iff` — the runs in every state of which a pass makes the documents right.
-/

namespace AdguardAdmin.LbViews

open RunLaws TableIds MergedViews ControlPlane GoText
open Registry (HttpError)

/-! ## Other tables -/

section Tables

/-- Other tables that outdate nothing: no row of a balancer or a host is lost, and no row of
a server is edited. -/
structure Harmless (db db' : Database) : Prop where
  servers : ∀ v ∈ db'.servers, v ∈ db.servers ∨ db.getServer v.id = none
  loadBalancers : ∀ lb ∈ db.loadBalancers, lb ∈ db'.loadBalancers
  agents : ∀ host ∈ db.agentIds, db'.getAgent host = db.getAgent host

/-- Tables with the same servers, balancers and agents are harmless. -/
theorem harmless_of_same {db db' : Database} (hservers : db'.servers = db.servers)
    (hlbs : db'.loadBalancers = db.loadBalancers) (hagents : db'.agents = db.agents) :
    Harmless db db' where
  servers v hv := .inl (hservers ▸ hv)
  loadBalancers lb hlb := hlbs ▸ hlb
  agents host _ := by rw [Database.getAgent, Database.getAgent, hagents]

theorem harmless_refl (db : Database) : Harmless db db := harmless_of_same rfl rfl rfl

variable {env : Environment} {s : ControlPlane}

/-- A request is harmless if it is so where it is not refused. -/
theorem harmless_afterwards {result : Except HttpError ControlPlane}
    (hok : ∀ s', result = .ok s' → Harmless s.db s'.db) : Harmless s.db (s.afterwards result).db := by
  cases result with
  | error e => exact harmless_refl s.db
  | ok s' => exact hok s' rfl

/-- VRRP settings harm nothing. -/
theorem ensureVrrp_rows (s : ControlPlane) (zone : Zone) : Harmless s.db (s.ensureVrrp env zone).1.db := by
  unfold ControlPlane.ensureVrrp
  split
  · exact harmless_refl s.db
  · split
    · exact harmless_refl s.db
    · exact harmless_of_same rfl rfl rfl

/-- A new zone is harmless. -/
theorem createZone_harmless (vip : Option String) (routerId : Option Int)
    (others : Except HttpError Unit) : Harmless s.db (s.createZone env vip routerId others).1.db := by
  unfold ControlPlane.createZone
  split
  · exact harmless_refl s.db
  · obtain ⟨hservers, hlbs, hagents⟩ := @ensureVrrp_rows env (s.setZones
      (s.db.zones ++ [⟨nextId (s.db.zones.map (·.id)), vip, routerId, none⟩])
      (nodup_append_nextId s.db.zoneKeys rfl)) ⟨nextId (s.db.zones.map (·.id)), vip, routerId, none⟩
    exact ⟨hservers, hlbs, hagents⟩

/-- A changed zone is harmless. -/
theorem updateZone_harmless (id : Nat) (vip : Option (Option String))
    (routerId : Option (Option Int)) (others : Except HttpError Unit) :
    Harmless s.db (s.updateZone env id vip routerId others).1.db := by
  unfold ControlPlane.updateZone
  split
  · exact harmless_refl s.db
  · rename_i zone _
    split
    · exact harmless_refl s.db
    · obtain ⟨hservers, hlbs, hagents⟩ := @ensureVrrp_rows env (s.setZones
        (putRow (·.id) (updatedZone zone vip routerId) s.db.zones)
        (nodup_putRow s.db.zoneKeys _)) (updatedZone zone vip routerId)
      exact ⟨hservers, hlbs, hagents⟩

/-- A new balancer is harmless. -/
theorem createLoadBalancer_harmless (payload : LoadBalancerCreate) :
    Harmless s.db (s.afterwards (s.createLoadBalancer payload)).db := by
  apply harmless_afterwards
  intro s' h
  unfold ControlPlane.createLoadBalancer at h
  obtain ⟨-, -, hadd⟩ := bind_ok.mp h
  unfold addBalancer at hadd
  split at hadd
  · obtain rfl := Except.ok.inj hadd
    exact ⟨fun _ hv => .inl hv, fun _ hlb => List.mem_append_left _ hlb, fun _ _ => rfl⟩
  · cases hadd

/-- A host that is there is found among more hosts. -/
theorem getAgent_append {db : Database} {host : Nat} (hhost : host ∈ db.agentIds)
    (more : List Agent) :
    (db.agents ++ more).find? (·.id = host) = db.getAgent host := by
  obtain ⟨agent, hagent, rfl⟩ := List.mem_map.mp hhost
  rw [List.find?_append, Database.getAgent, find?_key db.agentKeys hagent]
  rfl

/-- A host that enrolls is harmless. -/
theorem enroll_harmless (p : Provisioner) (token : String) (payload : EnrollRequest) (now : Int) :
    Harmless s.db (enroll p s token payload now).1.db := by
  cases hcheck : checkRequest p s token payload now with
  | error e =>
      simp only [enroll, hcheck]
      exact harmless_refl s.db
  | ok admission =>
      obtain ⟨hhost, hdb⟩ := enroll_db p hcheck
      rw [hdb]
      refine ⟨fun v hv => ?_, fun lb hlb => List.mem_append_left _ hlb, fun host hold => ?_⟩
      · rcases List.mem_append.mp hv with hold | hnew
        · exact .inl hold
        · right
          rw [Database.getServer, List.find?_eq_none]
          intro w hw heq
          have hfresh := (askedServer_id p (Option.mem_toList.mp hnew)).1
          refine nextId_not_mem (s.db.servers.map (·.id)) ?_
          have hid : w.id = nextId (s.db.servers.map (·.id)) :=
            (of_decide_eq_true heq).trans hfresh
          rw [← hid]
          exact List.mem_map_of_mem hw
      · exact getAgent_append hold _

/-- The requests that only add rows of balancers and servers. -/
theorem serve_harmless (p : Provisioner) (r : Request)
    (hupdate : ∀ id data, r ≠ .updateLoadBalancer id data)
    (hdelete : ∀ id, r ≠ .deleteLoadBalancer id) : Harmless s.db (s.serve p r).db := by
  cases r with
  | createZone vip routerId others => exact createZone_harmless vip routerId others
  | updateZone id vip routerId others => exact updateZone_harmless id vip routerId others
  | createLoadBalancer payload => exact createLoadBalancer_harmless payload
  | updateLoadBalancer id data => exact absurd rfl (hupdate id data)
  | deleteLoadBalancer id => exact absurd rfl (hdelete id)
  | createToken payload text password now =>
      exact harmless_afterwards fun s' h => (createToken_ok h).1 ▸ harmless_refl s.db
  | revokeToken id => exact harmless_afterwards fun s' h => revokeToken_db h ▸ harmless_refl s.db
  | deleteToken id => exact harmless_afterwards fun s' h => deleteToken_db h ▸ harmless_refl s.db
  | enroll token payload now => exact enroll_harmless p token payload now

/-- A new server is harmless. -/
theorem createServer_harmless (payload : ServerCreate) :
    Harmless s.db (s.afterwards (s.createServer env payload)).db := by
  apply harmless_afterwards
  intro s' h
  obtain ⟨v, hservers, hfresh, hagents, hlbs⟩ := createServer_ok h
  refine ⟨fun w hw => ?_, fun lb hlb => hlbs ▸ hlb, fun host _ => ?_⟩
  · rw [hservers] at hw
    rcases mem_append_singleton.mp hw with hold | rfl
    · exact .inl hold
    · right
      rw [Database.getServer, List.find?_eq_none]
      intro other hother heq
      exact hfresh (List.mem_map.mpr ⟨other, hother, of_decide_eq_true heq⟩)
  · rw [Database.getAgent, Database.getAgent, hagents]

/-- A server that is deleted is harmless. -/
theorem deleteServer_harmless (id : Nat) (others : Except HttpError Unit) :
    Harmless s.db (s.deleteServer id others).1.db := by
  obtain ⟨hservers, hagents, hlbs⟩ := deleteServer_rows (s := s) id others
  refine ⟨fun v hv => .inl (hservers v hv), fun lb hlb => hlbs ▸ hlb, fun host _ => ?_⟩
  rw [Database.getAgent, Database.getAgent, hagents]

end Tables

/-! ## One step -/

section Step

variable {env : Environment} {s : State Rate} {plane : ControlPlane}

/-- Other tables are up to date when the rows that were there before list only balancers
whose pool they are in now. -/
theorem upToDate_withPlane_iff : UpToDate env (s.withPlane plane) ↔
    ∀ v ∈ plane.db.servers, (s.plane.db.getServer v.id).isSome = true →
      ∀ id ∈ ids (s.lbState v.id), ∃ lb ∈ plane.db.loadBalancers, lb.id = id ∧
        Pools env plane.db lb v := by
  unfold UpToDate
  refine forall₂_congr fun v _ => ?_
  simp only [State.withPlane]
  by_cases hold : (s.plane.db.getServer v.id).isSome = true
  · rw [if_pos hold, imp_iff_right hold]
  · rw [if_neg hold]
    exact iff_of_true (fun _ hid => (List.not_mem_nil hid).elim) fun h => absurd h hold

/-- Harmless tables outdate nothing. -/
theorem upToDate_harmless (h : UpToDate env s) (hrows : Harmless s.plane.db plane.db) :
    UpToDate env (s.withPlane plane) := by
  rw [upToDate_withPlane_iff]
  intro v hv hold id hid
  rcases hrows.servers v hv with hmem | hnone
  · obtain ⟨lb, hlb, heq, hpools⟩ := h v hmem id hid
    refine ⟨lb, hrows.loadBalancers lb hlb, heq, (pools_congr fun host hhost => ?_).mpr hpools⟩
    exact hrows.agents host (s.plane.serverHosts v hmem host hhost)
  · rw [hnone] at hold
    cases hold

/-- Two rows of the balancer table with one key are one row. -/
theorem balancer_eq_of_id_eq {db : Database} {lb other : LoadBalancer}
    (hlb : lb ∈ db.loadBalancers) (hother : other ∈ db.loadBalancers) (hid : lb.id = other.id) :
    lb = other :=
  List.inj_on_of_nodup_map db.loadBalancerKeys hlb hother hid

/-- A server that is there is found. -/
theorem getServer_isSome {db : Database} {v : Server} (hv : v ∈ db.servers) :
    (db.getServer v.id).isSome = true := by
  rw [getServer_of_mem hv]
  rfl

/-- Tables with the same agents have the same pools. -/
theorem pools_of_agents {db db' : Database} (hagents : db'.agents = db.agents) {lb : LoadBalancer}
    {v : Server} : Pools env db' lb v ↔ Pools env db lb v :=
  pools_congr fun host _ => by rw [Database.getAgent, Database.getAgent, hagents]

/-- **An edited server** must stay in the pool of what it lists. -/
theorem upToDate_updateServer_iff (h : UpToDate env s) (id : Nat) (data : ServerUpdate) :
    UpToDate env (s.withPlane (s.plane.afterwards (s.plane.updateServer env id data))) ↔
      Keeps env s (.updateServer id data) := by
  cases hresult : s.plane.updateServer env id data with
  | error e =>
      refine iff_of_true (upToDate_harmless h (harmless_refl _)) fun v new hget hnew => ?_
      obtain ⟨plane, hok, -⟩ := exists_updateServer hget hnew
      cases hok.symm.trans hresult
  | ok plane =>
      obtain ⟨v, new, hget, hnew, hservers, hagents, hlbs⟩ := updateServer_ok hresult
      obtain ⟨hv, hvid⟩ := getServer_some hget
      have hnewId : new.id = v.id := (updatedServer_ok hnew).1
      have hkey : new.id ∈ s.plane.db.servers.map (·.id) := by
        rw [hnewId]
        exact List.mem_map_of_mem hv
      have hrow : ∀ w, w ∈ plane.db.servers ↔ w = new ∨ (w ∈ s.plane.db.servers ∧ w.id ≠ new.id) := by
        intro w
        rw [hservers]
        exact mem_putRow hkey
      rw [afterwards, upToDate_withPlane_iff]
      constructor
      · intro hafter v' new' hget' hnew' lb hlb hlisted
        obtain rfl := Option.some.inj (hget.symm.trans hget')
        obtain rfl := Except.ok.inj (hnew.symm.trans hnew')
        have hthere : (s.plane.db.getServer new.id).isSome = true := by
          rw [hnewId]
          exact getServer_isSome hv
        have hid : new.id = id := hnewId.trans hvid
        obtain ⟨other, hother, heq, hpools⟩ :=
          hafter new ((hrow new).mpr (.inl rfl)) hthere lb.id (hid ▸ hlisted)
        rw [hlbs] at hother
        obtain rfl := balancer_eq_of_id_eq hother hlb heq
        exact (pools_of_agents hagents).mp hpools
      · intro hkeeps w hw _ id' hid'
        rw [hlbs]
        rcases (hrow w).mp hw with rfl | ⟨hold, -⟩
        · rw [hnewId] at hid'
          obtain ⟨lb, hlb, rfl, -⟩ := h v hv id' hid'
          refine ⟨lb, hlb, rfl, (pools_of_agents hagents).mpr ?_⟩
          exact hkeeps v w hget hnew lb hlb (hvid ▸ hid')
        · obtain ⟨lb, hlb, heq, hpools⟩ := h w hold id' hid'
          exact ⟨lb, hlb, heq, (pools_of_agents hagents).mpr hpools⟩

/-- A changed balancer leaves the servers as they are. -/
theorem updateLoadBalancer_servers {s s' : ControlPlane} {id : Nat} {data : LoadBalancerUpdate}
    (h : s.updateLoadBalancer id data = .ok s') : s'.db.servers = s.db.servers := by
  have hput : ∀ lb, s.putBalancer lb = .ok s' → s'.db.servers = s.db.servers := by
    intro lb hput
    unfold putBalancer at hput
    split at hput
    · obtain rfl := Except.ok.inj hput
      rfl
    · cases hput
  unfold ControlPlane.updateLoadBalancer at h
  split at h
  · cases h
  · split at h
    · obtain ⟨u, hrefs, hrow⟩ := bind_ok.mp h
      exact hput _ hrow
    · exact hput _ h

/-- **An edited balancer** must keep the servers that list it in its pool. -/
theorem upToDate_updateLoadBalancer_iff (h : UpToDate env s) (id : Nat)
    (data : LoadBalancerUpdate) :
    UpToDate env (s.withPlane (s.plane.afterwards (s.plane.updateLoadBalancer id data))) ↔
      Keeps env s (.request (.updateLoadBalancer id data)) := by
  cases hresult : s.plane.updateLoadBalancer id data with
  | error e =>
      refine iff_of_true (upToDate_harmless h (harmless_refl _)) fun lb _ haccepted => ?_
      obtain ⟨plane, hok⟩ := haccepted
      cases hok.symm.trans hresult
  | ok plane =>
      obtain ⟨lb, hget, hlbs, -, hagents, -⟩ := updateLoadBalancer_ok hresult
      have hservers := updateLoadBalancer_servers hresult
      obtain ⟨hlb, rfl⟩ := getLoadBalancer_some hget
      have hkey : (updatedBalancer lb data).id ∈ s.plane.db.loadBalancers.map (·.id) :=
        List.mem_map_of_mem (f := (·.id)) hlb
      have hrow : ∀ other, other ∈ plane.db.loadBalancers ↔ other = updatedBalancer lb data ∨
          (other ∈ s.plane.db.loadBalancers ∧ other.id ≠ lb.id) := by
        intro other
        rw [hlbs]
        exact mem_putRow hkey
      rw [afterwards, upToDate_withPlane_iff, hservers]
      constructor
      · intro hafter lb' hget' _ v hv hlisted
        obtain rfl := Option.some.inj (hget.symm.trans hget')
        obtain ⟨other, hother, heq, hpools⟩ :=
          hafter v hv (getServer_isSome hv) lb.id hlisted
        rcases (hrow other).mp hother with rfl | ⟨-, hne⟩
        · exact (pools_of_agents hagents).mp hpools
        · exact absurd heq hne
      · intro hkeeps v hv _ id' hid'
        by_cases hid : id' = lb.id
        · subst hid
          refine ⟨_, (hrow _).mpr (.inl rfl), rfl, (pools_of_agents hagents).mpr ?_⟩
          exact hkeeps lb hget ⟨plane, hresult⟩ v hv hid'
        · obtain ⟨other, hother, rfl, hpools⟩ := h v hv id' hid'
          exact ⟨other, (hrow other).mpr (.inr ⟨hother, hid⟩), rfl,
            (pools_of_agents hagents).mpr hpools⟩

/-- A deleted balancer leaves the servers as they were. -/
theorem deleteLoadBalancer_servers {s s' : ControlPlane} {id : Nat}
    (h : s.deleteLoadBalancer id = .ok s') : s'.db.servers = s.db.servers := by
  unfold ControlPlane.deleteLoadBalancer at h
  split at h
  · cases h
  · obtain rfl := Except.ok.inj h
    rfl

/-- **A deleted balancer** must be listed nowhere. -/
theorem upToDate_deleteLoadBalancer_iff (h : UpToDate env s) (id : Nat) :
    UpToDate env (s.withPlane (s.plane.afterwards (s.plane.deleteLoadBalancer id))) ↔
      Keeps env s (.request (.deleteLoadBalancer id)) := by
  cases hresult : s.plane.deleteLoadBalancer id with
  | error e =>
      refine iff_of_true (upToDate_harmless h (harmless_refl _)) fun v hv hlisted => ?_
      obtain ⟨lb, hlb, rfl, -⟩ := h v hv id hlisted
      have hget : s.plane.db.getLoadBalancer lb.id = some lb :=
        find?_key s.plane.db.loadBalancerKeys hlb
      simp [ControlPlane.deleteLoadBalancer, hget] at hresult
  | ok plane =>
      obtain ⟨lb, -, hlbs, -, hagents⟩ := deleteLoadBalancer_ok hresult
      have hservers := deleteLoadBalancer_servers hresult
      rw [afterwards, upToDate_withPlane_iff, hservers, hlbs]
      constructor
      · intro hafter v hv hlisted
        obtain ⟨other, hother, heq, -⟩ := hafter v hv (getServer_isSome hv) id hlisted
        exact of_decide_eq_true (List.mem_filter.mp hother).2 heq
      · intro hkeeps v hv _ id' hid'
        obtain ⟨other, hother, rfl, hpools⟩ := h v hv id' hid'
        have hne : other.id ≠ id := by
          rintro rfl
          exact hkeeps v hv hid'
        exact ⟨other, List.mem_filter.mpr ⟨hother, decide_eq_true hne⟩, rfl,
          (pools_of_agents hagents).mpr hpools⟩

/-- A host that stays is found as before. -/
theorem getAgent_filter {db : Database} {host id : Nat} (hne : host ≠ id) :
    (db.agents.filter (·.id ≠ id)).find? (·.id = host) = db.getAgent host := by
  rw [List.find?_filter, Database.getAgent]
  congr 1
  funext agent
  by_cases heq : agent.id = host
  · simp [heq, hne]
  · simp [heq]

/-- **A forgotten host** takes its balancers with it, which must be listed nowhere, and
leaves its servers, which must stay in the pools of what they list. -/
theorem upToDate_deleteAgent_iff (h : UpToDate env s) (id : Nat) (force : Bool) :
    UpToDate env (s.withPlane (s.plane.afterwards (s.plane.deleteAgent id force))) ↔
      Keeps env s (.deleteAgent id force) := by
  cases hresult : s.plane.deleteAgent id force with
  | error e =>
      refine iff_of_true (upToDate_harmless h (harmless_refl _)) fun haccepted => ?_
      obtain ⟨plane, hok⟩ := haccepted
      cases hok.symm.trans hresult
  | ok plane =>
      obtain rfl := deleteAgent_ok hresult
      have hthere : ∀ v ∈ s.plane.db.servers,
          (s.plane.db.getServer (forgotten id v).id).isSome = true := by
        intro v hv
        rw [forgotten_id]
        exact getServer_isSome hv
      have hdetached : ∀ (lb : LoadBalancer) (v : Server), v.agentId = some id →
          (Pools env (s.plane.withoutAgent id).db lb (forgotten id v) ↔
            Pools env s.plane.db lb v.detached) := by
        intro lb v hhost
        rw [forgotten, if_pos hhost]
        exact pools_congr fun host hnone => by cases hnone
      have hother : ∀ (lb : LoadBalancer) (v : Server), v.agentId ≠ some id →
          (Pools env (s.plane.withoutAgent id).db lb (forgotten id v) ↔
            Pools env s.plane.db lb v) := by
        intro lb v hhost
        rw [forgotten, if_neg hhost]
        refine pools_congr fun host hsome => getAgent_filter ?_
        rintro rfl
        exact hhost hsome
      rw [afterwards, upToDate_withPlane_iff]
      constructor
      · intro hafter _ v hv lb hlb hlisted
        obtain ⟨other, hmem, heq, hpools⟩ := hafter (forgotten id v) (List.mem_map_of_mem hv)
          (hthere v hv) lb.id (by rwa [forgotten_id])
        obtain ⟨hrow, hkept⟩ := List.mem_filter.mp hmem
        obtain rfl := balancer_eq_of_id_eq hrow hlb heq
        refine ⟨of_decide_eq_true hkept, fun hhost => ?_⟩
        exact (hdetached other v hhost).mp hpools
      · intro hkeeps v' hv' _ id' hid'
        obtain ⟨v, hv, rfl⟩ := List.mem_map.mp hv'
        rw [forgotten_id] at hid'
        obtain ⟨lb, hlb, rfl, hpools⟩ := h v hv id' hid'
        obtain ⟨hkept, hdetach⟩ := hkeeps ⟨_, hresult⟩ v hv lb hlb hid'
        refine ⟨lb, List.mem_filter.mpr ⟨hlb, decide_eq_true hkept⟩, rfl, ?_⟩
        by_cases hhost : v.agentId = some id
        · exact (hdetached lb v hhost).mpr (hdetach hhost)
        · exact (hother lb v hhost).mpr hpools

variable [Zero Rate] {p : Provisioner} {sum : List Rate → Rate}

/-- What is listed after an outcome has been recorded. -/
theorem mem_ids_recordLb {plan : LbPlan} {lb : LoadBalancer} (report : Report Rate)
    (hlb : s.plane.db.getLoadBalancer plan.lbId = some lb) {v id : Nat} :
    id ∈ ids ((State.recordLb sum s plan report).lbState v) ↔
      id ∈ ids (s.lbState v) ∨ (id = lb.id ∧ ∃ b ∈ plan.backends, b.serverId = v ∧
        (s.plane.db.getServer b.serverId).isSome = true) := by
  have hkey : ∀ b ∈ plan.backends.filter fun b => (s.plane.db.getServer b.serverId).isSome,
      (merging sum).key (viewOf lb report b) = lb.id := fun _ _ => rfl
  have hvisit : id ∈ ids (visit (merging sum) (·.serverId) (viewOf lb report)
      (plan.backends.filter fun b => (s.plane.db.getServer b.serverId).isSome) s.lbState v) ↔ _ :=
    mem_keys_visit (merging sum) hkey s.lbState
  simp only [State.recordLb, hlb]
  refine hvisit.trans (or_congr Iff.rfl (and_congr Iff.rfl ?_))
  constructor
  · intro hmem
    obtain ⟨b, hb, hserver⟩ := List.mem_map.mp hmem
    obtain ⟨hb, hthere⟩ := List.mem_filter.mp hb
    exact ⟨b, hb, hserver, hthere⟩
  · rintro ⟨b, hb, hserver, hthere⟩
    exact List.mem_map.mpr ⟨b, List.mem_filter.mpr ⟨hb, hthere⟩, hserver⟩

/-- A report that is recorded changes no row. -/
theorem recordLb_plane (plan : LbPlan) (report : Report Rate) :
    (State.recordLb sum s plan report).plane = s.plane := by
  unfold State.recordLb
  split <;> rfl

/-- **A recorded outcome** must have been planned for servers that are still in the
pool. -/
theorem upToDate_recordLb_iff (h : UpToDate env s) (plan : LbPlan) (report : Report Rate) :
    UpToDate env (State.recordLb sum s plan report) ↔
      ∀ lb, s.plane.db.getLoadBalancer plan.lbId = some lb →
        ∀ b ∈ plan.backends, ∀ v, s.plane.db.getServer b.serverId = some v →
          Pools env s.plane.db lb v := by
  cases hget : s.plane.db.getLoadBalancer plan.lbId with
  | none =>
      refine iff_of_true ?_ fun lb hlb => by cases hlb
      simpa only [State.recordLb, hget] using h
  | some lb =>
      obtain ⟨hlb, -⟩ := getLoadBalancer_some hget
      unfold UpToDate
      rw [recordLb_plane]
      constructor
      · intro hafter lb' hlb' b hb v hv
        obtain rfl := Option.some.inj hlb'
        obtain ⟨hmem, hid⟩ := getServer_some hv
        have hlisted : lb.id ∈ ids ((State.recordLb sum s plan report).lbState v.id) :=
          (mem_ids_recordLb report hget).mpr (.inr ⟨rfl, b, hb, hid.symm, by simp [hv]⟩)
        obtain ⟨other, hother, heq, hpools⟩ := hafter v hmem lb.id hlisted
        obtain rfl := balancer_eq_of_id_eq hother hlb heq
        exact hpools
      · intro hkeeps v hv id hid
        rcases (mem_ids_recordLb report hget).mp hid with hold | ⟨rfl, b, hb, hserver, -⟩
        · exact h v hv id hold
        · refine ⟨lb, hlb, rfl, hkeeps lb rfl b hb v ?_⟩
          rw [hserver]
          exact getServer_of_mem hv

omit [Zero Rate] in
/-- An outcome that was planned from the tables as they are outdates nothing. -/
theorem pools_of_planned {db : Database} {id : Nat} {plan : LbPlan} {lb : LoadBalancer}
    {b : BackendTarget} {v : Server} (hplan : lbPlan env db id = some plan)
    (hlb : db.getLoadBalancer id = some lb) (hb : b ∈ plan.backends)
    (hv : db.getServer b.serverId = some v) : Pools env db lb v := by
  obtain ⟨lb', -, hlb', -, -, hbackends, -⟩ := exists_of_lbPlan hplan
  obtain rfl := Option.some.inj (hlb.symm.trans hlb')
  obtain ⟨hmem, hid⟩ := getServer_some hv
  rw [← mem_pool_iff hmem, hid, ← hbackends]
  exact List.mem_map_of_mem hb

/-- **One step leaves nothing outdated exactly when it meets the condition.** -/
theorem upToDate_step_iff (h : UpToDate p.toEnvironment s) (e : Event Rate) :
    UpToDate p.toEnvironment (s.step p sum e) ↔ Keeps p.toEnvironment s e := by
  cases e with
  | request r =>
      cases r with
      | updateLoadBalancer id data => exact upToDate_updateLoadBalancer_iff h id data
      | deleteLoadBalancer id => exact upToDate_deleteLoadBalancer_iff h id
      | createZone vip routerId others =>
          exact iff_of_true (upToDate_harmless h (createZone_harmless vip routerId others)) trivial
      | updateZone id vip routerId others =>
          exact iff_of_true (upToDate_harmless h (updateZone_harmless id vip routerId others)) trivial
      | createLoadBalancer payload =>
          exact iff_of_true (upToDate_harmless h (createLoadBalancer_harmless payload)) trivial
      | enroll token payload now =>
          exact iff_of_true (upToDate_harmless h (enroll_harmless p token payload now)) trivial
      | _ =>
          refine iff_of_true (upToDate_harmless h (serve_harmless p _ ?_ ?_)) trivial
          · exact fun _ _ heq => by cases heq
          · exact fun _ heq => by cases heq
  | createServer payload =>
      exact iff_of_true (upToDate_harmless h (createServer_harmless payload)) trivial
  | updateServer id data => exact upToDate_updateServer_iff h id data
  | deleteServer id others =>
      exact iff_of_true (upToDate_harmless h (deleteServer_harmless id others)) trivial
  | deleteAgent id force => exact upToDate_deleteAgent_iff h id force
  | plan lbId => exact iff_of_true h trivial
  | record i report =>
      simp only [State.step, Keeps]
      cases hplan : s.planned[i]? with
      | none => exact iff_of_true h fun plan hnone => by cases hnone
      | some plan =>
          refine (upToDate_recordLb_iff (s := { s with planned := s.planned.eraseIdx i }) h plan
            report).trans ?_
          constructor
          · intro hall plan' heq
            obtain rfl := Option.some.inj heq
            exact hall
          · intro hall
            exact hall plan rfl

end Step

/-! ## Runs -/

section Runs

variable [Zero Rate] {p : Provisioner} {sum : List Rate → Rate} {s : State Rate}

theorem wellFormed_none : WellFormed sum (none : Option (LbState Rate)) :=
  ⟨List.nodup_nil, fun _ hnone => by cases hnone⟩

/-- Other rows leave the reports well formed. -/
theorem wellFormed_withPlane (h : ∀ id, WellFormed sum (s.lbState id)) (plane : ControlPlane)
    (id : Nat) : WellFormed sum ((s.withPlane plane).lbState id) := by
  simp only [State.withPlane]
  split
  · exact h id
  · exact wellFormed_none

/-- A report that is recorded is. -/
theorem wellFormed_recordLb (h : ∀ id, WellFormed sum (s.lbState id)) (plan : LbPlan)
    (report : Report Rate) (id : Nat) :
    WellFormed sum ((State.recordLb sum s plan report).lbState id) := by
  unfold State.recordLb
  split
  · exact h id
  · exact visit_keeps (merging sum) wellFormed_merge h id

/-- Every step keeps the recorded states of all balancers well formed. -/
theorem wellFormed_step (h : ∀ id, WellFormed sum (s.lbState id)) (e : Event Rate) :
    ∀ id, WellFormed sum ((s.step p sum e).lbState id) := by
  cases e with
  | plan lbId => exact h
  | record i report =>
      simp only [State.step]
      split
      · exact h
      · rename_i plan _
        exact fun id => wellFormed_recordLb (s := { s with planned := s.planned.eraseIdx i }) h plan
          report id
  | _ => exact fun id => wellFormed_withPlane h _ id

variable (p sum)

/-- **The runs in which a pass always settles.**  Take any run of requests, plans and
recorded outcomes from tables in which no outcome has been recorded.  If every step meets
the condition, then in every state a pass over all balancers makes the documents right;
and where passwords can be encrypted, so that every balancer is planned, only then. -/
theorem views_settle_iff (plane : ControlPlane) (events : List (Event Rate)) :
    (Along (State.step p sum) (Keeps p.toEnvironment) (start plane) events →
      Throughout (State.step p sum) (Settles sum p) (start plane) events) ∧
    ((∀ text, (p.encryptSecret text).isSome = true) →
      Throughout (State.step p sum) (Settles sum p) (start plane) events →
        Along (State.step p sum) (Keeps p.toEnvironment) (start plane) events) := by
  have hstart : UpToDate p.toEnvironment (start plane : State Rate) :=
    fun _ _ _ hid => (List.not_mem_nil hid).elim
  have hiff := throughout_iff_along (State.step p sum)
    (fun s e (h : UpToDate p.toEnvironment s) => upToDate_step_iff h e) hstart events
  have hform : Throughout (State.step p sum) (fun s => ∀ id, WellFormed sum (s.lbState id))
      (start plane) events := by
    refine throughout_of_kept (State.step p sum) ?_ (fun _ => wellFormed_none) events
    intro s e h
    exact wellFormed_step h e
  rw [throughout_iff_prefixes] at hform
  constructor
  · intro hkeeps
    have hcurrent := hiff.mpr hkeeps
    rw [throughout_iff_prefixes] at hcurrent ⊢
    intro before rest heq
    exact settles_of_upToDate (hform before rest heq) (hcurrent before rest heq)
  · intro hencrypts hsettles
    rw [← hiff]
    rw [throughout_iff_prefixes] at hsettles ⊢
    intro before rest heq
    exact (settles_iff hencrypts (hform before rest heq)).mp (hsettles before rest heq)

end Runs

/-! ## A deleted balancer -/

/-- Two hosts with an AdGuard and a balancer each. -/
def twoHostsPlane : ControlPlane where
  db := twoHosts
  tokens := []
  tokenKeys := by simp
  serverHosts := by simp [twoHosts, managedServer, Database.agentIds]
  balancerHosts := by simp [twoHosts, dnsdistBalancer, Database.agentIds]

/-- A balancer is reconciled and then deleted. -/
def reconciledThenDeleted : List (Event Nat) :=
  [.plan 1, .record 0 ⟨[], []⟩, .request (.deleteLoadBalancer 1)]

/-- With no request in between the reconcile of a balancer keeps the documents up to
date. -/
theorem settles_after_reconcile :
    Throughout (State.step ControlPlane.defaultProvisioner List.sum)
      (Settles List.sum ControlPlane.defaultProvisioner) (start twoHostsPlane : State Nat)
      [.plan 1, .record 0 ⟨[], []⟩] := by
  refine (views_settle_iff ControlPlane.defaultProvisioner List.sum twoHostsPlane _).1
    ⟨trivial, fun plan hplan lb hlb b hb v hv => ?_, trivial⟩
  have hplanned : lbPlan defaultEnvironment twoHosts 1 = some plan := by
    cases hmade : lbPlan defaultEnvironment twoHosts 1 with
    | none => exact absurd hmade (by decide +kernel)
    | some made =>
        have hfirst : (start twoHostsPlane : State Nat).planned ++
            (lbPlan defaultEnvironment twoHosts 1).toList = [made] := by
          rw [hmade]
          rfl
        have hindex : [made][0]? = some plan := hfirst ▸ hplan
        exact hindex
  exact pools_of_planned hplanned (lbPlan_lbId hplanned ▸ hlb) hb hv

/-- The servers go on listing a balancer that is gone. -/
theorem deleted_balancer_listed :
    ¬ ∀ (p : Provisioner) (sum : List Nat → Nat) (plane : ControlPlane)
      (events : List (Event Nat)),
      Throughout (State.step p sum) (Settles sum p) (start plane) events := by
  intro h
  have hsettles := throughout_last (State.step ControlPlane.defaultProvisioner List.sum)
    (h ControlPlane.defaultProvisioner List.sum twoHostsPlane reconciledThenDeleted)
  have hright := hsettles [2] (by decide +kernel) (by decide +kernel) fun _ => ⟨[], []⟩
  have hlisted := (hright.lists (managedServer 1 "dns-a" 1) (by decide +kernel) 1).mp
    (by decide +kernel)
  revert hlisted
  decide +kernel

end AdguardAdmin.LbViews
