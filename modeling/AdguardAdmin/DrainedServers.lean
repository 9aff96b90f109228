import AdguardAdmin.DrainCalls
import AdguardAdmin.DnsdistDecoding
import AdguardAdmin.KeepalivedDecoding
import AdguardAdmin.PoolReachability
/-!
# Drained servers

An operator drains a server on a balancer.  The control plane passes the drain on
under the backend name it derives from the server's name and id; the agent keeps it
under that name, and a converge takes names off its map that the stored spec does not
have.

The model follows one balancer and the role that serves it: edits of the rows,
reconcile passes whose requests arrive, drains and undrains, converges, and restarts
of the agent and of the balancer, in any order.  `marks` remembers, for the
statements only, which servers have been drained under which name; a server that
leaves the pool is forgotten.

`drained_servers_stay` says that a marked server is drained after every converge if
its name in the pool is the one it was drained under and the converge gets its calls
through.  A rename that changes the backend name puts a drained server back into
service.
-/

namespace AdguardAdmin.DrainedServers

open RunLaws Drains GoText

/-! ## The role of a balancer -/

/-- What depends on the mode of the balancer.  Every spec the control plane plans names
the backends of the pool, and the spec that stands the role down names none. -/
structure Side (Spec Cell : Type) where
  balancer : Balancer Spec Cell
  mode : LbMode
  planned : LbPlan → Option (Json Int)
  decode : Json Int → Except Error Spec
  standDown : Json Int
  reapplies_manages : ∀ spec, balancer.reapplies spec = true → balancer.manages spec = true
  names_planned : ∀ env db lbId plan raw spec, lbPlan env db lbId = some plan →
    planned plan = some raw → decode raw = .ok spec → balancer.manages spec = true →
    balancer.names spec = (plan.backends.filter (·.enabled)).map (·.name)
  standDown_off : ∀ spec, decode standDown = .ok spec →
    balancer.reapplies spec = false ∧ balancer.names spec = []

def dnsdistSide : Side Dnsdist.Spec String where
  balancer := dnsdist
  mode := .dnsdist
  planned := (·.dnsdist)
  decode := Dnsdist.decode
  standDown := disabledDnsdist
  reapplies_manages _ _ := rfl
  names_planned := by
    intro env db lbId plan raw spec hplan hraw hspec _
    obtain ⟨lb, agent, -, -, -, hbackends, hdnsdist, -⟩ := exists_of_lbPlan hplan
    rw [hdnsdist] at hraw
    split at hraw
    · cases hraw
    · obtain rfl := Option.some.inj hraw
      rw [hbackends]
      exact (Dnsdist.decode_dnsdistSpec hspec).2
  standDown_off := by
    intro spec hspec
    have hoff : (Dnsdist.decode disabledDnsdist).toOption.map (fun s => (s.enabled, s.backends)) =
        some (false, []) := by decide +kernel
    rw [hspec] at hoff
    obtain ⟨henabled, hbackends⟩ := Prod.mk.inj (Option.some.inj hoff)
    exact ⟨henabled, by simp [dnsdist, hbackends]⟩

/-- A spec that balances in the kernel has a balancer that is switched on. -/
theorem ipvs_of_ipvsOn {spec : Keepalived.Spec} (h : spec.ipvsOn = true) :
    ∃ v, spec.ipvs = some v ∧ v.enabled = true := by
  unfold Keepalived.Spec.ipvsOn at h
  rw [Bool.and_eq_true, Option.any_eq_true] at h
  exact h.2

def ipvsSide : Side Keepalived.Spec RealServer where
  balancer := ipvs
  mode := .ipvs
  planned := (·.keepalived)
  decode := Keepalived.decode
  standDown := disabledKeepalived
  reapplies_manages _ h := h
  names_planned := by
    intro env db lbId plan raw spec hplan hraw hspec hon
    obtain ⟨lb, agent, -, -, -, hbackends, -, hkeepalived⟩ := exists_of_lbPlan hplan
    obtain ⟨v, hv, hvon⟩ := ipvs_of_ipvsOn hon
    rw [hraw] at hkeepalived
    obtain ⟨_, _, -, -, hbuilt⟩ := plannedKeepalived_eq_some env db hkeepalived
    simp only [ipvs, hv, Option.map_some, Option.getD_some, hbackends]
    exact Keepalived.names_of_keepalivedSpec hbuilt hspec hv hvon
  standDown_off := by
    intro spec hspec
    have hoff : (Keepalived.decode disabledKeepalived).toOption = some Keepalived.disabledSpec := by
      decide +kernel
    rw [hspec] at hoff
    obtain rfl := Option.some.inj hoff
    exact ⟨rfl, rfl⟩

/-! ## The system -/

/-- A server drained on the balancer, and the name it was drained under. -/
structure Mark where
  serverId : Nat
  name : String
  deriving DecidableEq, Repr

/-- `spec` is the desired spec the agent has stored and `pool` the enabled targets it
was built from. -/
structure State (Spec Cell : Type) where
  db : Database
  spec : Option Spec
  pool : List BackendTarget
  role : Drains.State Spec Cell
  marks : List Mark

variable {Spec Cell : Type}

def start (file : Option (List String)) (db : Database) : State Spec Cell where
  db := db
  spec := none
  pool := []
  role := Drains.start file
  marks := []

inductive Event (Spec Cell : Type) where
  /-- Rows are edited, added or removed. -/
  | edit (db : Database)
  /-- A reconcile pass whose requests reach the host. -/
  | pass
  /-- A drain or undrain through the control plane. -/
  | drain (serverId : Nat) (undrain : Bool) (calls : List Bool) (written : Bool)
  | converge (restarts : Bool) (calls : List Bool)
  /-- The balancer is started on a configuration, or stopped. -/
  | reload (loaded : Option Spec)
  /-- The balancer sets an entry back by itself. -/
  | rewrite (cell : Cell)
  /-- The agent restarts. -/
  | restart

/-- The server of a backend of the balancer. -/
def backendServer (db : Database) (lb : LoadBalancer) (serverId : Nat) : Option Server :=
  (db.servers.find? (·.id = serverId)).filter fun server => server.zoneId = lb.zoneId

/-- The mode of the balancer, which selects the role, and the name of the backend. -/
def drainTarget (db : Database) (lbId serverId : Nat) : Option (LbMode × String) := do
  let lb ← db.getLoadBalancer lbId
  let server ← backendServer db lb serverId
  let _ ← db.getAgent lb.agentId
  return (lb.mode, backendNameFor server.name server.id)

/-- The target of a drain is named after its server. -/
theorem drainTarget_eq_some {db : Database} {lbId serverId : Nat} {mode : LbMode} {name : String}
    (h : drainTarget db lbId serverId = some (mode, name)) :
    ∃ serverName, name = backendNameFor serverName serverId := by
  obtain ⟨lb, -, h⟩ := Option.bind_eq_some_iff.mp h
  obtain ⟨server, hserver, h⟩ := Option.bind_eq_some_iff.mp h
  obtain ⟨_, -, h⟩ := Option.bind_eq_some_iff.mp h
  obtain ⟨-, rfl⟩ := Prod.mk.inj (Option.some.inj h)
  have hid := List.find?_some (Option.filter_eq_some_iff.mp hserver).1
  exact ⟨server.name, by rw [of_decide_eq_true hid]⟩

variable (side : Side Spec Cell) (env : Environment) (lbId : Nat)

namespace State

/-- The agent stores a spec it can decode. -/
def putRole (s : State Spec Cell) (raw : Json Int) (pool : List BackendTarget) :
    State Spec Cell :=
  match side.decode raw with
  | .ok spec => { s with spec := some spec, pool := pool }
  | .error _ => s

/-- The marks of the servers still in the pool. -/
def keepMarks (s : State Spec Cell) (pool : List BackendTarget) : State Spec Cell :=
  { s with marks := s.marks.filter fun m => pool.any fun t => t.serverId = m.serverId }

/-- One pass.  A role that is not planned is stood down if it has a spec. -/
def runPass (s : State Spec Cell) : State Spec Cell :=
  match lbPlan env s.db lbId with
  | none => s
  | some plan =>
      let pool := plan.backends.filter (·.enabled)
      match side.planned plan with
      | some raw => (s.keepMarks pool).putRole side raw pool
      | none =>
          if s.spec.isSome then (s.keepMarks pool).putRole side side.standDown []
          else s.keepMarks pool

/-- The marks after a request: a drain answered with success marks its server anew, an
undrain that got through to the balancer unmarks it. -/
def marksAfter (s : State Spec Cell) (serverId : Nat) (name : String) (undrain : Bool)
    (asked ended : Drains.State Spec Cell) : List Mark :=
  let others := s.marks.filter (·.serverId ≠ serverId)
  if undrain then (if asked.told then others else s.marks)
  else if ended.succeeded then ⟨serverId, name⟩ :: others
  else s.marks

variable [DecidableEq Cell]

/-- A request the role serves by its stored spec. -/
def serve (s : State Spec Cell) (spec : Spec) (serverId : Nat) (name : String) (undrain : Bool)
    (calls : List Bool) (written : Bool) : State Spec Cell :=
  let asked := after (Drains.State.step side.balancer) s.role.settled
    (asking spec name (!undrain) calls)
  let ended := after (Drains.State.step side.balancer) asked (recording written)
  { s with
    role := ended
    marks := s.marksAfter serverId name undrain asked ended }

/-- A request to the role the balancer's mode selects. -/
def request (s : State Spec Cell) (serverId : Nat) (undrain : Bool) (calls : List Bool)
    (written : Bool) : State Spec Cell :=
  match drainTarget s.db lbId serverId, s.spec with
  | some (mode, name), some spec =>
      if mode = side.mode then s.serve side spec serverId name undrain calls written else s
  | _, _ => s

/-- The role after a converge of a stored spec. -/
def converged (s : State Spec Cell) (spec : Spec) (restarts : Bool) (calls : List Bool) :
    Drains.State Spec Cell :=
  after (Drains.State.step side.balancer) s.role.settled (convergeRun spec restarts calls)

def step (s : State Spec Cell) : Event Spec Cell → State Spec Cell
  | .edit db => { s with db := db }
  | .pass => s.runPass side env lbId
  | .drain serverId undrain calls written => s.request side lbId serverId undrain calls written
  | .converge restarts calls =>
      match s.spec with
      | none => s
      | some spec => { s with role := s.converged side spec restarts calls }
  | .reload loaded => { s with role := s.role.step side.balancer (.reload loaded) }
  | .rewrite cell => { s with role := s.role.step side.balancer (.rewrite cell) }
  | .restart => { s with role := s.role.step side.balancer .restart }

end State

/-! ## What sticks -/

/-- The backend is reported as drained, and held out of the live balancer. -/
def Drained (role : Drains.State Spec Cell) (spec : Spec) (name : String) : Prop :=
  name ∈ role.drained ∧ ∀ cell ∈ side.balancer.cells spec name, role.held cell = true

/-- A converge that ends with the balancer on the stored spec leaves the backend of every
marked server drained. -/
def StaysDrained [DecidableEq Cell] (s : State Spec Cell) : Event Spec Cell → Prop
  | .converge restarts calls =>
      ∀ spec, s.spec = some spec → side.balancer.reapplies spec = true →
        (restarts = true ∨ Configured side.balancer s.role.loaded spec) →
        (s.converged side spec restarts calls).pass = .none →
        ∀ m ∈ s.marks, (∃ t ∈ s.pool, t.serverId = m.serverId) ∧
          ∀ t ∈ s.pool, t.serverId = m.serverId →
            Drained side (s.converged side spec restarts calls) spec t.name
  | _ => True

/-- A converge finds every marked server in the pool under the name it was drained under
and gets its calls through. -/
def KeepsNames (s : State Spec Cell) : Event Spec Cell → Prop
  | .converge _ calls =>
      ∀ spec, s.spec = some spec → side.balancer.reapplies spec = true →
        (∀ m ∈ s.marks, ∀ t ∈ s.pool, t.serverId = m.serverId → t.name = m.name) ∧
          ∀ ok ∈ calls, ok = true
  | _ => True

/-! ## The invariant -/

/-- The drain is on the map and on disk. -/
def Remembered (role : Drains.State Spec Cell) (m : Mark) : Prop :=
  m.name ∈ role.drained ∧ m.name ∈ stored role.file

/-- The name carries the server's id. -/
def NamedBy (serverId : Nat) (name : String) : Prop :=
  ∃ serverName, name = backendNameFor serverName serverId

/-- The stored spec names the pool, every marked server is in it while the role runs,
and every mark is remembered under a name of its server. -/
structure Consistent (s : State Spec Cell) : Prop where
  names : ∀ spec, s.spec = some spec → side.balancer.manages spec = true →
    side.balancer.names spec = s.pool.map (·.name)
  marksInPool : ∀ spec, s.spec = some spec → side.balancer.reapplies spec = true →
    ∀ m ∈ s.marks, ∃ t ∈ s.pool, t.serverId = m.serverId
  poolNames : ∀ t ∈ s.pool, NamedBy t.serverId t.name
  markNames : ∀ m ∈ s.marks, NamedBy m.serverId m.name
  remembered : ∀ m ∈ s.marks, Remembered s.role m

namespace Consistent

variable {side env lbId} {s : State Spec Cell}

/-- The start is consistent. -/
theorem start (file : Option (List String)) (db : Database) :
    Consistent side (start file db : State Spec Cell) where
  names _ h := by cases h
  marksInPool _ h := by cases h
  poolNames _ h := by cases h
  markNames _ h := by cases h
  remembered _ h := by cases h

/-- An edit of the tables keeps names and marks consistent. -/
theorem edit (h : Consistent side s) (db : Database) : Consistent side { s with db := db } where
  names := h.names
  marksInPool := h.marksInPool
  poolNames := h.poolNames
  markNames := h.markNames
  remembered := h.remembered

/-- The role moves on and remembers every mark. -/
theorem role (h : Consistent side s) {role : Drains.State Spec Cell}
    (hremembered : ∀ m ∈ s.marks, Remembered role m) :
    Consistent side { s with role := role } where
  names := h.names
  marksInPool := h.marksInPool
  poolNames := h.poolNames
  markNames := h.markNames
  remembered := hremembered

/-! ### A pass -/

/-- Keeping the marks of a pool keeps names and marks consistent. -/
theorem keepMarks (h : Consistent side s) (pool : List BackendTarget) :
    Consistent side (s.keepMarks pool) where
  names := h.names
  marksInPool spec hspec hreapplies m hm :=
    h.marksInPool spec hspec hreapplies m (List.mem_of_mem_filter hm)
  poolNames := h.poolNames
  markNames m hm := h.markNames m (List.mem_of_mem_filter hm)
  remembered m hm := h.remembered m (List.mem_of_mem_filter hm)

/-- A spec that names its pool is stored, or refused. -/
theorem putRole (h : Consistent side s) {raw : Json Int} {pool : List BackendTarget}
    (hnames : ∀ spec, side.decode raw = .ok spec → side.balancer.manages spec = true →
      side.balancer.names spec = pool.map (·.name))
    (hmarks : ∀ spec, side.decode raw = .ok spec → side.balancer.reapplies spec = true →
      ∀ m ∈ s.marks, ∃ t ∈ pool, t.serverId = m.serverId)
    (hpool : ∀ t ∈ pool, NamedBy t.serverId t.name) : Consistent side (s.putRole side raw pool) := by
  unfold State.putRole
  split
  · rename_i spec hdecode
    refine ⟨?_, ?_, hpool, h.markNames, h.remembered⟩
    · rintro _ ⟨⟩
      exact hnames spec hdecode
    · rintro _ ⟨⟩
      exact hmarks spec hdecode
  · exact h

/-- The backends of a plan are named after their servers. -/
theorem namedBy_of_mem_plan {db : Database} {plan : LbPlan} (hplan : lbPlan env db lbId = some plan)
    {t : BackendTarget} (ht : t ∈ plan.backends) : NamedBy t.serverId t.name := by
  obtain ⟨lb, _, -, -, -, hbackends, -⟩ := exists_of_lbPlan hplan
  rw [hbackends] at ht
  obtain ⟨server, -, -, -, -, htarget⟩ := mem_desiredBackends ht
  obtain ⟨-, -, hid, hname, -⟩ := backendTarget_eq_some htarget
  exact ⟨server.name, by rw [hname, hid]⟩

/-- A pass keeps the state consistent. -/
theorem runPass (h : Consistent side s) : Consistent side (s.runPass side env lbId) := by
  unfold State.runPass
  split
  · exact h
  · rename_i plan hplan
    dsimp only
    have hkept := h.keepMarks (plan.backends.filter (·.enabled))
    split
    · rename_i raw hraw
      refine hkept.putRole ?_ ?_ ?_
      · intro spec hspec hmanages
        exact side.names_planned env s.db lbId plan raw spec hplan hraw hspec hmanages
      · intro _ _ _ m hm
        obtain ⟨t, ht, hid⟩ := List.any_eq_true.mp (List.mem_filter.mp hm).2
        exact ⟨t, ht, of_decide_eq_true hid⟩
      · intro t ht
        exact namedBy_of_mem_plan hplan (List.mem_of_mem_filter ht)
    · split
      · refine hkept.putRole ?_ ?_ (by simp)
        · intro spec hspec _
          exact (side.standDown_off spec hspec).2
        · intro spec hspec hreapplies
          rw [(side.standDown_off spec hspec).1] at hreapplies
          cases hreapplies
      · exact hkept

/-! ### Marks -/

/-- Fewer marks are consistent if they were. -/
theorem marks (h : Consistent side s) {marks : List Mark} (hmarks : ∀ m ∈ marks, m ∈ s.marks) :
    Consistent side { s with marks := marks } where
  names := h.names
  marksInPool spec hspec hreapplies m hm := h.marksInPool spec hspec hreapplies m (hmarks m hm)
  poolNames := h.poolNames
  markNames m hm := h.markNames m (hmarks m hm)
  remembered m hm := h.remembered m (hmarks m hm)

/-- A new mark, of a server in the pool. -/
theorem addMark (h : Consistent side s) {m : Mark} (hnamed : NamedBy m.serverId m.name)
    (hpool : ∃ t ∈ s.pool, t.serverId = m.serverId) (hremembered : Remembered s.role m) :
    Consistent side { s with marks := m :: s.marks } where
  names := h.names
  marksInPool spec hspec hreapplies :=
    List.forall_mem_cons.mpr ⟨hpool, h.marksInPool spec hspec hreapplies⟩
  poolNames := h.poolNames
  markNames := List.forall_mem_cons.mpr ⟨hnamed, h.markNames⟩
  remembered := List.forall_mem_cons.mpr ⟨hremembered, h.remembered⟩

/-- A backend the role serves belongs to the pool. -/
theorem mem_pool_of_served (h : Consistent side s) {spec : Spec} (hspec : s.spec = some spec)
    {serverId : Nat} {name : String} (hnamed : NamedBy serverId name)
    (hserved : side.balancer.manages spec = true ∧ name ∈ side.balancer.names spec) :
    ∃ t ∈ s.pool, t.serverId = serverId := by
  rw [h.names spec hspec hserved.1] at hserved
  obtain ⟨t, ht, hname⟩ := List.mem_map.mp hserved.2
  obtain ⟨poolName, hpoolName⟩ := h.poolNames t ht
  obtain ⟨serverName, hserverName⟩ := hnamed
  exact ⟨t, ht, backendNameFor_injective (hpoolName.symm.trans (hname.trans hserverName))⟩

/-! ### A request -/

variable [DecidableEq Cell]

/-- A request remembers the drains of other servers. -/
theorem remembered_serve (h : Consistent side s) {spec : Spec} {serverId : Nat} {name : String}
    {undrain : Bool} (hnamed : NamedBy serverId name) {asked : Drains.State Spec Cell}
    (hasked : Asked side.balancer s.role asked spec name (!undrain)) (written : Bool) {m : Mark}
    (hm : m ∈ s.marks) (hother : undrain = true → asked.told = true → m.serverId ≠ serverId) :
    Remembered (after (Drains.State.step side.balancer) asked (recording written)) m := by
  obtain ⟨hdrained, hfile⟩ := h.remembered m hm
  cases htold : asked.told with
  | false =>
      rw [(hasked.recording_of_not_told htold written).1]
      exact ⟨hasked.drained ▸ hdrained, hasked.file ▸ hfile⟩
  | true =>
      obtain ⟨-, hdrained', hfile', -⟩ := hasked.recording_of_told htold written
      have hstill : m.name ∈ s.role.drainedAfter name (!undrain) := by
        cases undrain with
        | false => exact mem_insertName.mpr (.inr hdrained)
        | true =>
            refine mem_eraseName.mpr ⟨hdrained, fun heq => hother rfl htold ?_⟩
            obtain ⟨serverName, hserver⟩ := hnamed
            obtain ⟨markName, hmark⟩ := h.markNames m hm
            exact backendNameFor_injective (hmark.symm.trans (heq.trans hserver))
      refine ⟨hdrained' ▸ hstill, ?_⟩
      rw [hfile']
      cases written with
      | false => exact hfile
      | true => exact mem_sortedNames.mpr hstill

/-- A request that is served keeps names and marks consistent. -/
theorem serve (h : Consistent side s) {spec : Spec} (hspec : s.spec = some spec) {serverId : Nat}
    {name : String} (hnamed : NamedBy serverId name) (undrain : Bool) (calls : List Bool)
    (written : Bool) :
    Consistent side (s.serve side spec serverId name undrain calls written) := by
  have hasked := Asked.asking (b := side.balancer) s.role spec name (!undrain) calls
  have hremembered := fun m hm => h.remembered_serve hnamed hasked written (m := m) hm
  have hothers : ∀ m ∈ s.marks.filter (·.serverId ≠ serverId),
      m ∈ s.marks ∧ m.serverId ≠ serverId := fun m hm => by simpa using List.mem_filter.mp hm
  have hkept : Consistent side { s with marks := s.marks.filter (·.serverId ≠ serverId) } :=
    h.marks fun m hm => (hothers m hm).1
  unfold State.serve State.marksAfter
  dsimp only
  cases undrain with
  | true =>
      rw [if_pos rfl]
      split
      · exact hkept.role fun m hm =>
          hremembered m (hothers m hm).1 fun _ _ => (hothers m hm).2
      · rename_i htold
        exact h.role fun m hm => hremembered m hm fun _ h => absurd h htold
  | false =>
      rw [if_neg (by decide)]
      split
      · rename_i hsucceeded
        cases htold : (after (Drains.State.step side.balancer) s.role.settled
            (asking spec name true calls)).told with
        | false =>
            obtain ⟨hsame, hfailed⟩ := hasked.recording_of_not_told htold written
            rw [hsame, hfailed] at hsucceeded
            cases hsucceeded
        | true =>
            obtain ⟨hserved, hdrained, hfile, hwritten⟩ := hasked.recording_of_told htold written
            obtain rfl : written = true := hwritten.symm.trans hsucceeded
            have hmem : name ∈ s.role.drainedAfter name true := mem_insertName.mpr (.inl rfl)
            have hrole := hkept.role fun m hm =>
              hremembered m (hothers m hm).1 fun h => by cases h
            refine hrole.addMark hnamed (h.mem_pool_of_served hspec hnamed hserved) ⟨?_, ?_⟩
            · exact hdrained ▸ hmem
            · exact hfile ▸ mem_sortedNames.mpr hmem
      · exact h.role fun m hm => hremembered m hm fun h => by cases h

/-- Every request keeps names and marks consistent. -/
theorem request (h : Consistent side s) (serverId : Nat) (undrain : Bool) (calls : List Bool)
    (written : Bool) : Consistent side (s.request side lbId serverId undrain calls written) := by
  unfold State.request
  split
  · rename_i mode name spec htarget hspec
    split
    · exact h.serve hspec (drainTarget_eq_some htarget) undrain calls written
    · exact h
  · exact h

/-! ### A converge -/

/-- A converge that finds the marked servers under their names keeps their drains. -/
theorem converge (h : Consistent side s) {spec : Spec} (hspec : s.spec = some spec)
    (hkeeps : side.balancer.reapplies spec = true →
      ∀ m ∈ s.marks, ∀ t ∈ s.pool, t.serverId = m.serverId → t.name = m.name)
    (restarts : Bool) (calls : List Bool) :
    Consistent side { s with role := s.converged side spec restarts calls } := by
  refine h.role fun m hm => ?_
  have hname : side.balancer.reapplies spec = true → m.name ∈ side.balancer.names spec := by
    intro hreapplies
    obtain ⟨t, ht, hid⟩ := h.marksInPool spec hspec hreapplies m hm
    rw [h.names spec hspec (side.reapplies_manages spec hreapplies),
      ← hkeeps hreapplies m hm t ht hid]
    exact List.mem_map_of_mem ht
  obtain ⟨hdrained, hfile⟩ := h.remembered m hm
  have hkeeping := Keeping.convergeRun side.balancer hdrained hname restarts calls
  exact ⟨hkeeping.drained, hkeeping.file.symm ▸ hfile⟩

/-- A converge that keeps the names leaves drained servers drained, when its calls succeed. -/
theorem staysDrained (h : Consistent side s) {restarts : Bool} {calls : List Bool}
    (hkeeps : KeepsNames side s (.converge restarts calls)) :
    StaysDrained side s (.converge restarts calls) := by
  intro spec hspec hreapplies hconfigured hdone m hm
  obtain ⟨hnames, hcalls⟩ := hkeeps spec hspec hreapplies
  refine ⟨h.marksInPool spec hspec hreapplies m hm, fun t ht hid => ?_⟩
  have hname : t.name ∈ side.balancer.names spec := by
    rw [h.names spec hspec (side.reapplies_manages spec hreapplies)]
    exact List.mem_map_of_mem ht
  have hdrained : t.name ∈ s.role.drained := hnames m hm t ht hid ▸ (h.remembered m hm).1
  exact ⟨(Keeping.convergeRun side.balancer hdrained (fun _ => hname) restarts calls).drained,
    held_of_convergeRun side.balancer hreapplies hdrained hname hconfigured hcalls hdone⟩

/-- Every event that keeps the names keeps names and marks consistent. -/
theorem step (h : Consistent side s) (e : Event Spec Cell) (hkeeps : KeepsNames side s e) :
    Consistent side (s.step side env lbId e) := by
  cases e with
  | edit db => exact h.edit db
  | pass => exact h.runPass
  | drain serverId undrain calls written => exact h.request serverId undrain calls written
  | converge restarts calls =>
      simp only [State.step]
      split
      · exact h
      · rename_i spec hspec
        exact h.converge hspec (fun hreapplies => (hkeeps spec hspec hreapplies).1) restarts calls
  | reload loaded => exact h.role h.remembered
  | rewrite cell => exact h.role h.remembered
  | restart => exact h.role fun m hm => ⟨(h.remembered m hm).2, (h.remembered m hm).2⟩

end Consistent

/-! ## Runs -/

/-- Along a run that keeps the names, drained servers stay drained. -/
theorem staysDrained_along [DecidableEq Cell] (file : Option (List String)) (db : Database)
    (events : List (Event Spec Cell))
    (hrun : Along (State.step side env lbId) (KeepsNames side) (start file db) events) :
    Along (State.step side env lbId) (StaysDrained side) (start file db) events := by
  have hstart : Consistent side (start file db) := Consistent.start file db
  refine along_of_invariant _ ?_ hstart hrun
  intro s e hs hkeeps
  refine ⟨?_, hs.step e hkeeps⟩
  cases e with
  | converge restarts calls => exact hs.staysDrained hkeeps
  | _ => trivial

/-- **A drain sticks to the server as long as the server keeps its name.**  Along every
run of edits, passes, requests, converges and restarts in which each converge finds the
drained servers under the names they were drained under and gets its calls through, every
converge leaves them drained. -/
theorem drained_servers_stay (env : Environment) (lbId : Nat) (file : Option (List String))
    (db : Database) :
    (∀ events : List (Event Dnsdist.Spec String),
      Along (State.step dnsdistSide env lbId) (KeepsNames dnsdistSide) (start file db) events →
        Along (State.step dnsdistSide env lbId) (StaysDrained dnsdistSide) (start file db)
          events) ∧
    (∀ events : List (Event Keepalived.Spec RealServer),
      Along (State.step ipvsSide env lbId) (KeepsNames ipvsSide) (start file db) events →
        Along (State.step ipvsSide env lbId) (StaysDrained ipvsSide) (start file db) events) :=
  ⟨staysDrained_along dnsdistSide env lbId file db, staysDrained_along ipvsSide env lbId file db⟩

/-! ## A renamed server -/

/-- The two hosts, with a new name for the second server. -/
def renamed (name : String) : Database :=
  { twoHosts with
    servers := [managedServer 1 "dns-a" 1, managedServer 2 name 2]
    serverKeys := by simp [managedServer] }

/-- The second server is drained on the first balancer, and renamed. -/
def drainThenRename (name : String) : List (Event Dnsdist.Spec String) :=
  [.pass, .converge true [true], .drain 2 false [true] true, .edit (renamed name), .pass,
    .converge true [true, true]]

/-- A new name with the same backend name keeps the drain. -/
theorem drain_survives_a_blank :
    Along (State.step dnsdistSide defaultEnvironment 1) (StaysDrained dnsdistSide)
      (start none twoHosts) (drainThenRename "dns b") := by
  refine (drained_servers_stay defaultEnvironment 1 none twoHosts).1 (drainThenRename "dns b") ?_
  refine ⟨trivial, ?_, trivial, trivial, trivial, ?_, trivial⟩
  · intro spec _ _
    exact ⟨by decide +kernel, by decide⟩
  · intro spec _ _
    exact ⟨by decide +kernel, by decide⟩

/-- The state the last converge finds. -/
def afterRename : State Dnsdist.Spec String :=
  after (State.step dnsdistSide defaultEnvironment 1) (start none twoHosts)
    (drainThenRename "resolver-b").dropLast

theorem isSome_afterRename : afterRename.spec.isSome = true := by decide +kernel

/-- A server that was renamed comes back. -/
theorem renamed_server_returns :
    ¬ ∀ (env : Environment) (lbId : Nat) (file : Option (List String)) (db : Database)
      (events : List (Event Dnsdist.Spec String)),
      Along (State.step dnsdistSide env lbId) (StaysDrained dnsdistSide) (start file db)
        events := by
  intro h
  obtain ⟨-, -, -, -, -, hlast, -⟩ :=
    h defaultEnvironment 1 none twoHosts (drainThenRename "resolver-b")
  have hstays : StaysDrained dnsdistSide afterRename (.converge true [true, true]) := hlast
  obtain ⟨⟨t, ht, hid⟩, hdrained⟩ := hstays (afterRename.spec.get isSome_afterRename)
    (Option.some_get _).symm (by decide +kernel) (.inl rfl) (by decide +kernel) ⟨2, "dns-b-2"⟩
    (by decide +kernel)
  have hlost : ∀ t ∈ afterRename.pool, t.serverId = 2 →
      t.name ∉ (afterRename.converged dnsdistSide (afterRename.spec.get isSome_afterRename)
        true [true, true]).drained := by decide +kernel
  exact hlost t ht hid (hdrained t ht hid).1

end AdguardAdmin.DrainedServers
