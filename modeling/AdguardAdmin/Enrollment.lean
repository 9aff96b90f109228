import AdguardAdmin.BalancerRules
/-!
# Enrollment, commit by commit

`enroll` never waits between its commits, so the event loop runs one enrollment at a
time; revocations and deletions run on other threads, between any two of its commits,
and a commit can fail and the process can die at any of them.  A revocation reads its
token and writes it back in two steps.

The state carries a history: which agent was added from which token, the rows of
deleted tokens as they were, and which tokens were revoked before they were completed.

* `step_sound` — what one step keeps, when it does not come between the commits;
* `between_requests` — in every run whose steps do not, every token is used up with
  all of its rows or unused with none, and a revoked one stays so.
-/

namespace AdguardAdmin.Enrollment

open RunLaws TableIds GoText

/-- An enrollment by what it has committed, with the token as it was read. -/
inductive Progress where
  | admitted (admission : Admission)
  | agentAdded (ticket : ProvisioningToken) (agentId : Nat) (url : String)
  | rolesAdded (ticket : ProvisioningToken) (made : MadeRows)

structure State where
  plane : ControlPlane
  running : Option Progress
  /-- Revocations that have read their token as pending. -/
  revoking : List Nat
  /-- The token's text and the agent of every first commit. -/
  enrolled : List (String × Nat)
  retired : List ProvisioningToken
  revoked : List String

inductive Event where
  | createToken (payload : ProvisionRequest) (text password : String) (now : Int)
  | enroll (token : String) (payload : EnrollRequest) (now : Int)
  | commit (now : Int) (succeeds : Bool)
  | readRevoke (id : Nat)
  | writeRevoke (id : Nat) (succeeds : Bool)
  | delete (id : Nat) (succeeds : Bool)
  | crash

section Steps

variable (p : Provisioner)

/-- The next commit of an enrollment goes through. -/
def commitNext (s : State) (now : Int) : Progress → State
  | .admitted admission =>
      let agentId := nextId s.plane.db.agentIds
      { s with
        plane := commitAgent s.plane admission.address
        enrolled := s.enrolled ++ [(admission.ticket.token, agentId)]
        running := some (.agentAdded admission.ticket agentId
          (agentUrl admission.address admission.port)) }
  | .agentAdded ticket agentId url =>
      match commitRoles p s.plane ticket.id agentId url with
      | .error _ => { s with running := none }
      | .ok (plane, made) => { s with plane := plane, running := some (.rolesAdded ticket made) }
  | .rolesAdded ticket made =>
      match commitToken s.plane ticket.id made now with
      | .error _ => { s with running := none }
      | .ok plane => { s with plane := plane, running := none }

/-- A revocation writes: the token's status is not looked at again. -/
def writeRevoke (s : State) (id : Nat) : State :=
  match s.plane.getToken id with
  | none => s
  | some t =>
      { s with
        plane := s.plane.editToken id ControlPlane.revoked ControlPlane.revoked_id
        revoked := if t.status = .completed then s.revoked else s.revoked ++ [t.token] }

def deleteToken (s : State) (id : Nat) : State :=
  match s.plane.getToken id with
  | none => s
  | some t => { s with plane := s.plane.removeToken id, retired := s.retired ++ [t] }

/-- A request to enroll is checked when the event loop is free. -/
def arrive (s : State) (token : String) (payload : EnrollRequest) (now : Int) : State :=
  match s.running, checkRequest p s.plane token payload now with
  | none, .ok admission => { s with running := some (.admitted admission) }
  | _, _ => s

def readRevoke (s : State) (id : Nat) : State :=
  match s.plane.getToken id with
  | some t => if t.status = .pending then { s with revoking := s.revoking ++ [id] } else s
  | none => s

/-- What each event does; an event that has nothing to act on does nothing. -/
def step (s : State) : Event → State
  | .createToken payload text password now =>
      { s with plane := s.plane.afterwards (s.plane.createToken p payload text password now) }
  | .enroll token payload now => arrive p s token payload now
  | .commit now succeeds =>
      match s.running with
      | none => s
      | some progress => if succeeds then commitNext p s now progress else { s with running := none }
  | .readRevoke id => readRevoke s id
  | .writeRevoke id succeeds =>
      if id ∈ s.revoking then
        let s := { s with revoking := s.revoking.erase id }
        if succeeds then writeRevoke s id else s
      else s
  | .delete id succeeds => if succeeds then deleteToken s id else s
  | .crash => { s with running := none, revoking := [] }

end Steps

/-- A control plane with nothing going on. -/
def start (plane : ControlPlane) : State := ⟨plane, none, [], [], [], []⟩

/-- With nothing in between, the three commits are the whole request. -/
theorem after_enroll (p : Provisioner) (s : State) (hfree : s.running = none) (token : String)
    (payload : EnrollRequest) (now : Int) :
    (after (step p) s
      [.enroll token payload now, .commit now true, .commit now true, .commit now true]).plane =
        (enroll p s.plane token payload now).1 := by
  cases hcheckRequest : checkRequest p s.plane token payload now with
  | error e => simp [step, arrive, enroll, hfree, hcheckRequest]
  | ok admission =>
      simp only [after_cons, after_nil, step, arrive, hfree, hcheckRequest, commitNext, enroll,
        if_true]
      cases commitRoles p (commitAgent s.plane admission.address) admission.ticket.id
        (nextId s.plane.db.agentIds) (agentUrl admission.address admission.port) with
      | error e => rfl
      | ok rows =>
          obtain ⟨plane, made⟩ := rows
          dsimp only
          cases commitToken plane admission.ticket.id made now with
          | error e => rfl
          | ok plane => rfl

/-! ## What shall hold between requests -/

/-- The tokens there are and those there were. -/
def State.known (s : State) : List ProvisioningToken := s.plane.tokens ++ s.retired

/-- The agents made from a token. -/
def State.agentsOf (s : State) (token : String) : List Nat :=
  (s.enrolled.filter (·.1 = token)).map (·.2)

/-- The rows on an agent are exactly those the token asks for. -/
structure RowsFor (p : Provisioner) (db : Database) (t : ProvisioningToken) (made : MadeRows)
    (url : String) : Prop where
  agent : made.agentId ∈ db.agentIds
  servers : db.servers.filter (·.agentId = some made.agentId) =
    made.serverId.toList.map fun id => enrolledServer p t id made.agentId url
  balancers : db.loadBalancers.filter (·.agentId = made.agentId) =
    made.loadBalancerId.toList.map fun id => enrolledBalancer p t id made.agentId
  asksServer : made.serverId.isSome ↔ .adguard ∈ t.asked
  asksBalancer : made.loadBalancerId.isSome ↔ .dnsdist ∈ t.asked

/-- The token is completed and one agent was made from it, with its rows; or it is not
and none was. -/
def Atomic (p : Provisioner) (s : State) (t : ProvisioningToken) : Prop :=
  if t.status = .completed then
    ∃ made url, s.agentsOf t.token = [made.agentId] ∧ t.agentId = some made.agentId ∧
      t.serverId = made.serverId ∧ t.loadBalancerId = made.loadBalancerId ∧
      RowsFor p s.plane.db t made url
  else s.agentsOf t.token = []

/-- No request is in flight. -/
def State.Idle (s : State) : Prop := s.running = none ∧ s.revoking = []

/-- What the requests leave behind. -/
structure Settled (p : Provisioner) (s : State) : Prop where
  atomic : ∀ t ∈ s.known, Atomic p s t
  revoked : ∀ t ∈ s.known, t.token ∈ s.revoked → t.status ≠ .completed

/-! ## What must not come between the commits -/

/-- The token of an enrollment that is past its first commit. -/
def State.enrolling (s : State) : Option String :=
  match s.running with
  | some (.agentAdded ticket _ _) => some ticket.token
  | some (.rolesAdded ticket _) => some ticket.token
  | _ => none

/-- An enrollment that has not committed anything yet. -/
def State.admitted (s : State) : Option Admission :=
  match s.running with
  | some (.admitted admission) => some admission
  | _ => none

/-- The step does not come between the check of a token and the last commit of its
enrollment, nor an enrollment between the two halves of a revocation; and a new
token's text is not that of a deleted one. -/
def Undisturbed (s : State) : Event → Prop
  | .createToken _ text _ _ => text ∉ s.retired.map (·.token)
  | .enroll _ _ _ => True
  | .commit _ succeeds => (succeeds = true ∨ s.enrolling = none) ∧
      (succeeds = true → ∀ admission ∈ s.admitted, ∃ t ∈ s.plane.getToken admission.ticket.id,
        t.token = admission.ticket.token ∧ t.status = .pending)
  | .readRevoke _ => True
  | .writeRevoke id succeeds => succeeds = true → id ∈ s.revoking →
      ∀ t ∈ s.plane.getToken id, s.enrolling ≠ some t.token ∧ t.status ≠ .completed
  | .delete id succeeds => succeeds = true →
      ∀ t ∈ s.plane.getToken id, s.enrolling ≠ some t.token
  | .crash => s.enrolling = none

instance decidableUndisturbed (s : State) : ∀ event, Decidable (Undisturbed s event)
  | .createToken _ text _ _ => inferInstanceAs (Decidable (text ∉ s.retired.map (·.token)))
  | .enroll _ _ _ => isTrue trivial
  | .commit _ succeeds =>
      inferInstanceAs (Decidable ((succeeds = true ∨ s.enrolling = none) ∧
        (succeeds = true → ∀ admission ∈ s.admitted, ∃ t ∈ s.plane.getToken admission.ticket.id,
          t.token = admission.ticket.token ∧ t.status = .pending)))
  | .readRevoke _ => isTrue trivial
  | .writeRevoke id succeeds =>
      inferInstanceAs (Decidable (succeeds = true → id ∈ s.revoking →
        ∀ t ∈ s.plane.getToken id, s.enrolling ≠ some t.token ∧ t.status ≠ .completed))
  | .delete id succeeds =>
      inferInstanceAs (Decidable (succeeds = true →
        ∀ t ∈ s.plane.getToken id, s.enrolling ≠ some t.token))
  | .crash => inferInstanceAs (Decidable (s.enrolling = none))

/-! ## The invariant -/

variable (p : Provisioner)

/-- Where an enrollment is between its commits. -/
def Partway (s : State) : Prop :=
  match s.running with
  | some (.agentAdded ticket agentId _) => ∃ t ∈ s.plane.tokens, t.id = ticket.id ∧
      t.token = ticket.token ∧ t.status = .pending ∧ s.agentsOf t.token = [agentId] ∧
      agentId ∈ s.plane.db.agentIds ∧
      s.plane.db.servers.filter (·.agentId = some agentId) = [] ∧
      s.plane.db.loadBalancers.filter (·.agentId = agentId) = []
  | some (.rolesAdded ticket made) => ∃ t ∈ s.plane.tokens, t.id = ticket.id ∧
      t.token = ticket.token ∧ t.status = .pending ∧ s.agentsOf t.token = [made.agentId] ∧
      ∃ url, RowsFor p s.plane.db t made url
  | _ => True

structure Sound (s : State) : Prop where
  /-- Texts are unique, and a deleted one is not used again. -/
  unique : (s.plane.tokens.map (·.token)).Nodup
  apart : ∀ text ∈ s.plane.tokens.map (·.token), text ∉ s.retired.map (·.token)
  /-- No agent is made twice, and none is made from a token that never was. -/
  agents : (s.enrolled.map (·.2)).Nodup
  exist : ∀ e ∈ s.enrolled, e.2 ∈ s.plane.db.agentIds
  origin : ∀ e ∈ s.enrolled, e.1 ∈ s.known.map (·.token)
  revokedKnown : ∀ text ∈ s.revoked, text ∈ s.known.map (·.token)
  atomic : ∀ t ∈ s.known, s.enrolling ≠ some t.token → Atomic p s t
  revoked : ∀ t ∈ s.known, t.token ∈ s.revoked → t.status = .revoked
  partway : Partway p s

variable {p} {s : State}

/-- The agents of a token are those that enrolled with it. -/
theorem mem_agentsOf {token : String} {agentId : Nat} :
    agentId ∈ s.agentsOf token ↔ (token, agentId) ∈ s.enrolled := by
  unfold State.agentsOf
  rw [List.mem_map]
  constructor
  · rintro ⟨⟨text, a⟩, hmem, rfl⟩
    obtain ⟨hin, htext⟩ := List.mem_filter.mp hmem
    exact (of_decide_eq_true htext : text = token) ▸ hin
  · intro hmem
    exact ⟨(token, agentId), List.mem_filter.mpr ⟨hmem, by simp⟩, rfl⟩

/-- No enrollment is past its first commit, so none is half done. -/
theorem partway_of_enrolling_none (h : s.enrolling = none) : Partway p s := by
  unfold Partway
  unfold State.enrolling at h
  split at h <;> simp_all

/-- An enrollment stays where it is as long as its own token does. -/
theorem partway_kept (h : Partway p s) {s' : State} (hrunning : s'.running = s.running)
    (henrolled : s'.enrolled = s.enrolled) (hdb : s'.plane.db = s.plane.db)
    (hkept : ∀ u ∈ s.plane.tokens, s.enrolling = some u.token → u ∈ s'.plane.tokens) :
    Partway p s' := by
  unfold Partway State.enrolling at *
  rw [hrunning, hdb]
  split at h
  · rename_i heq
    obtain ⟨t, ht, hid, htext, hpending, hone, hrest⟩ := h
    refine ⟨t, hkept t ht ?_, hid, htext, hpending, ?_, hrest⟩
    · simp [heq, htext]
    · simpa [State.agentsOf, henrolled] using hone
  · rename_i heq
    obtain ⟨t, ht, hid, htext, hpending, hone, hrest⟩ := h
    refine ⟨t, hkept t ht ?_, hid, htext, hpending, ?_, hrest⟩
    · simp [heq, htext]
    · simpa [State.agentsOf, henrolled] using hone
  · trivial

/-- Revocations in flight are not part of the invariant. -/
theorem sound_setRevoking (h : Sound p s) (ids : List Nat) : Sound p { s with revoking := ids } :=
  ⟨h.unique, h.apart, h.agents, h.exist, h.origin, h.revokedKnown, h.atomic, h.revoked, h.partway⟩

/-- An enrollment that comes or goes before its first commit keeps the plane sound. -/
theorem sound_setRunning (h : Sound p s) (hold : s.enrolling = none) {running : Option Progress}
    (hnew : { s with running := running }.enrolling = none) :
    Sound p { s with running := running } :=
  ⟨h.unique, h.apart, h.agents, h.exist, h.origin, h.revokedKnown,
    fun t ht _ => h.atomic t ht (by simp [hold]), h.revoked, partway_of_enrolling_none hnew⟩

/-! ## Rows -/

/-- Rows that are made belong to the agent that is added. -/
theorem rowsFor_addAgent {db : Database} {t : ProvisioningToken} {made : MadeRows} {url : String}
    (h : RowsFor p db t made url) (address : String) : RowsFor p (db.addAgent address) t made url where
  agent := by
    rw [Database.agentIds_addAgent]
    exact List.mem_append_left _ h.agent
  servers := h.servers
  balancers := h.balancers
  asksServer := h.asksServer
  asksBalancer := h.asksBalancer

/-- The rows of a token on a fresh agent. -/
theorem rowsFor_commitRows {plane : ControlPlane} {t : ProvisioningToken} {agentId : Nat}
    {url : String} (hagent : agentId ∈ plane.db.agentIds)
    (hservers : plane.db.servers.filter (·.agentId = some agentId) = [])
    (hbalancers : plane.db.loadBalancers.filter (·.agentId = agentId) = []) :
    RowsFor p (commitRows p plane t agentId url hagent).db t
      { agentId := agentId
        serverId := (askedServer p plane.db t agentId url).map (·.id)
        loadBalancerId := (askedBalancer p plane.db t agentId).map (·.id) } url where
  agent := hagent
  servers := by
    change (plane.db.servers ++ (askedServer p plane.db t agentId url).toList).filter
      (·.agentId = some agentId) = _
    rw [List.filter_append, hservers, List.nil_append]
    by_cases hasked : .adguard ∈ t.asked
    · simp [askedServer, hasked, enrolledServer]
    · simp [askedServer, hasked]
  balancers := by
    change (plane.db.loadBalancers ++ (askedBalancer p plane.db t agentId).toList).filter
      (·.agentId = agentId) = _
    rw [List.filter_append, hbalancers, List.nil_append]
    by_cases hasked : .dnsdist ∈ t.asked
    · simp [askedBalancer, hasked, enrolledBalancer, newBalancer]
    · simp [askedBalancer, hasked]
  asksServer := by simp [askedServer]
  asksBalancer := by simp [askedBalancer]

/-- The rows on another agent are left alone. -/
theorem rowsFor_commitRows_other {plane : ControlPlane} {t u : ProvisioningToken} {agentId : Nat}
    {url other : String} {made : MadeRows} (hagent : agentId ∈ plane.db.agentIds)
    (h : RowsFor p plane.db u made other) (hne : agentId ≠ made.agentId) :
    RowsFor p (commitRows p plane t agentId url hagent).db u made other where
  agent := h.agent
  servers := by
    refine Eq.trans ?_ h.servers
    change (plane.db.servers ++ (askedServer p plane.db t agentId url).toList).filter
      (·.agentId = some made.agentId) = _
    rw [List.filter_append, List.append_right_eq_self, List.filter_eq_nil_iff]
    intro row hrow
    simp [(askedServer_id p (Option.mem_toList.mp hrow)).2, hne]
  balancers := by
    refine Eq.trans ?_ h.balancers
    change (plane.db.loadBalancers ++ (askedBalancer p plane.db t agentId).toList).filter
      (·.agentId = made.agentId) = _
    rw [List.filter_append, List.append_right_eq_self, List.filter_eq_nil_iff]
    intro row hrow
    simp [(askedBalancer_id p (Option.mem_toList.mp hrow)).2, hne]
  asksServer := h.asksServer
  asksBalancer := h.asksBalancer

/-- No server and no balancer is on an agent that is about to be added. -/
theorem fresh_agent_bare (plane : ControlPlane) :
    plane.db.servers.filter (·.agentId = some (nextId plane.db.agentIds)) = [] ∧
      plane.db.loadBalancers.filter (·.agentId = nextId plane.db.agentIds) = [] := by
  constructor
  · rw [List.filter_eq_nil_iff]
    intro row hrow hid
    exact nextId_not_mem _ (plane.serverHosts row hrow _ (of_decide_eq_true hid))
  · rw [List.filter_eq_nil_iff]
    intro row hrow hid
    have hsame : row.agentId = nextId plane.db.agentIds := of_decide_eq_true hid
    exact nextId_not_mem _ (hsame ▸ plane.balancerHosts row hrow)

/-! ## One step -/

theorem eq_of_id_eq {t u : ProvisioningToken} (ht : t ∈ s.plane.tokens) (hu : u ∈ s.plane.tokens)
    (h : t.id = u.id) : t = u := List.inj_on_of_nodup_map s.plane.tokenKeys ht hu h

theorem known_of_mem {t : ProvisioningToken} (h : t ∈ s.plane.tokens) : t ∈ s.known :=
  List.mem_append_left _ h

/-- A token with another's text is that token, unless it is a deleted one. -/
theorem Sound.eq_of_token_eq (h : Sound p s) {t u : ProvisioningToken} (ht : t ∈ s.plane.tokens)
    (hu : u ∈ s.known) (heq : u.token = t.token) : u = t := by
  rcases List.mem_append.mp hu with hu' | hu'
  · exact List.inj_on_of_nodup_map h.unique hu' ht heq
  · refine absurd (List.mem_map.mpr ⟨u, hu', heq⟩) (h.apart t.token ?_)
    exact List.mem_map_of_mem ht

/-- Two tokens have no agent in common. -/
theorem Sound.agents_apart (h : Sound p s) {token other : String} {agentId : Nat}
    (ht : agentId ∈ s.agentsOf token) (ho : agentId ∈ s.agentsOf other) : token = other :=
  congrArg Prod.fst
    (List.inj_on_of_nodup_map h.agents (mem_agentsOf.mp ht) (mem_agentsOf.mp ho) rfl)

/-- The first commit of an enrollment keeps the plane sound. -/
theorem sound_commitAgent (h : Sound p s) {admission : Admission}
    (hrunning : s.running = some (.admitted admission)) (now : Int)
    {t : ProvisioningToken} (hget : s.plane.getToken admission.ticket.id = some t)
    (htext : t.token = admission.ticket.token) (hpending : t.status = .pending) :
    Sound p (commitNext p s now (.admitted admission)) := by
  obtain ⟨ht, hid⟩ := getToken_some hget
  have hidle : s.enrolling = none := by simp [State.enrolling, hrunning]
  have hnone : s.agentsOf t.token = [] := by
    have hatomic := h.atomic t (known_of_mem ht) (by simp [hidle])
    simpa [Atomic, hpending] using hatomic
  have hagents : ∀ token, token ≠ t.token →
      (commitNext p s now (.admitted admission)).agentsOf token = s.agentsOf token := by
    intro token hne
    simp [commitNext, State.agentsOf, ← htext, hne.symm]
  have hthis : (commitNext p s now (.admitted admission)).agentsOf t.token =
      [nextId s.plane.db.agentIds] := by
    have hfilter : s.enrolled.filter (·.1 = t.token) = [] := List.map_eq_nil_iff.mp hnone
    simp [commitNext, State.agentsOf, ← htext, hfilter]
  refine ⟨h.unique, h.apart, ?_, ?_, ?_, h.revokedKnown, ?_, h.revoked, ?_⟩
  · -- a fresh agent is not one of those before
    rw [commitNext, List.map_append]
    refine List.Nodup.append h.agents (List.nodup_singleton _) ?_
    intro a ha hnew
    obtain rfl := List.mem_singleton.mp hnew
    obtain ⟨e, he, heq⟩ := List.mem_map.mp ha
    exact nextId_not_mem _ (heq ▸ h.exist e he)
  · intro e he
    rw [commitNext, commitAgent, Database.agentIds_addAgent]
    rcases List.mem_append.mp he with hold | hnew
    · exact List.mem_append_left _ (h.exist e hold)
    · obtain rfl := List.mem_singleton.mp hnew
      exact List.mem_append_right _ (List.mem_singleton_self _)
  · intro e he
    rcases List.mem_append.mp he with hold | hnew
    · exact h.origin e hold
    · obtain rfl := List.mem_singleton.mp hnew
      exact List.mem_map.mpr ⟨t, known_of_mem ht, htext⟩
  · intro u hu hother
    have hne : u.token ≠ t.token := by
      intro heq
      exact hother (by simp [commitNext, State.enrolling, heq, htext])
    have hatomic := h.atomic u hu (by simp [hidle])
    unfold Atomic at hatomic ⊢
    rw [hagents u.token hne]
    split
    · rename_i hcompleted
      rw [if_pos hcompleted] at hatomic
      obtain ⟨made, url, hone, ha, hs, hl, hrows⟩ := hatomic
      exact ⟨made, url, hone, ha, hs, hl, rowsFor_addAgent hrows admission.address⟩
    · rename_i hcompleted
      rwa [if_neg hcompleted] at hatomic
  · obtain ⟨hservers, hbalancers⟩ := fresh_agent_bare s.plane
    refine ⟨t, ht, hid, htext, hpending, hthis, ?_, hservers, hbalancers⟩
    rw [commitNext, commitAgent, Database.agentIds_addAgent]
    exact List.mem_append_right _ (List.mem_singleton_self _)

/-- The second commit of an enrollment keeps the plane sound. -/
theorem sound_commitRoles (h : Sound p s) {ticket : ProvisioningToken} {agentId : Nat} {url : String}
    (hrunning : s.running = some (.agentAdded ticket agentId url)) (now : Int) :
    Sound p (commitNext p s now (.agentAdded ticket agentId url)) := by
  have hpartway := h.partway
  rw [Partway, hrunning] at hpartway
  obtain ⟨t, ht, hid, htext, hpending, hone, hagent, hservers, hbalancers⟩ := hpartway
  have hget : s.plane.getToken ticket.id = some t := hid ▸ getToken_of_mem ht
  have hnext : commitNext p s now (.agentAdded ticket agentId url) =
      { s with
        plane := commitRows p s.plane t agentId url hagent
        running := some (.rolesAdded ticket
          { agentId := agentId
            serverId := (askedServer p s.plane.db t agentId url).map (·.id)
            loadBalancerId := (askedBalancer p s.plane.db t agentId).map (·.id) }) } := by
    simp [commitNext, commitRoles, hget, hagent]
  rw [hnext]
  refine ⟨h.unique, h.apart, h.agents, h.exist, h.origin, h.revokedKnown, ?_, h.revoked, ?_⟩
  · intro u hu hother
    have hstill : s.enrolling ≠ some u.token := by
      simpa [State.enrolling, hrunning] using hother
    have hatomic := h.atomic u hu hstill
    unfold Atomic at hatomic ⊢
    split
    · rename_i hcompleted
      rw [if_pos hcompleted] at hatomic
      obtain ⟨made, other, hmade, ha, hs, hl, hrows⟩ := hatomic
      refine ⟨made, other, hmade, ha, hs, hl, rowsFor_commitRows_other hagent hrows ?_⟩
      rintro rfl
      have hshared : t.token = u.token :=
        h.agents_apart (by rw [hone]; exact List.mem_singleton_self _)
          (by rw [hmade]; exact List.mem_singleton_self _)
      apply hstill
      rw [State.enrolling, hrunning, ← hshared, htext]
    · rename_i hcompleted
      rwa [if_neg hcompleted] at hatomic
  · exact ⟨t, ht, hid, htext, hpending, hone, url, rowsFor_commitRows hagent hservers hbalancers⟩

/-- Editing one token keeps the invariant when the edited row has it. -/
theorem sound_editToken (h : Sound p s) {t : ProvisioningToken} (ht : t ∈ s.plane.tokens)
    (edit : ProvisioningToken → ProvisioningToken) (hid : ∀ u, (edit u).id = u.id)
    (htoken : ∀ u, (edit u).token = u.token) {s' : State}
    (hplane : s'.plane = s.plane.editToken t.id edit hid) (henrolled : s'.enrolled = s.enrolled)
    (hretired : s'.retired = s.retired)
    (hothers : ∀ token, token ≠ t.token → s'.enrolling ≠ some token → s.enrolling ≠ some token)
    (hatomic : Atomic p s (edit t))
    (hrevoked : ∀ token ∈ s'.revoked, token ∈ s.revoked ∨ token = t.token)
    (hthis : t.token ∈ s'.revoked → (edit t).status = .revoked)
    (hpartway : Partway p s') : Sound p s' := by
  have hdb : s'.plane.db = s.plane.db := by
    rw [hplane]
    rfl
  have htexts : s'.plane.tokens.map (·.token) = s.plane.tokens.map (·.token) := by
    rw [hplane, ControlPlane.editToken, List.map_map]
    refine List.map_congr_left fun u _ => ?_
    by_cases hsame : u.id = t.id <;> simp [hsame, htoken]
  have hall : s'.known.map (·.token) = s.known.map (·.token) := by
    rw [State.known, State.known, List.map_append, List.map_append, htexts, hretired]
  -- every row that is there now is the edited one or one that was there
  have hknown : ∀ u ∈ s'.known, u = edit t ∨ (u ∈ s.known ∧ u.token ≠ t.token) := by
    intro u hu
    rcases List.mem_append.mp hu with hpresent | hgone
    · rw [hplane] at hpresent
      obtain ⟨v, hv, rfl⟩ := List.mem_map.mp hpresent
      by_cases hsame : v.id = t.id
      · rw [if_pos hsame, eq_of_id_eq hv ht hsame]
        exact .inl rfl
      · rw [if_neg hsame]
        refine .inr ⟨known_of_mem hv, fun heq => hsame ?_⟩
        rw [h.eq_of_token_eq ht (known_of_mem hv) heq]
    · have hold : u ∈ s.known := List.mem_append_right _ (hretired ▸ hgone)
      refine .inr ⟨hold, fun heq => ?_⟩
      refine h.apart t.token (List.mem_map_of_mem ht) (List.mem_map.mpr ⟨u, hretired ▸ hgone, heq⟩)
  refine ⟨htexts ▸ h.unique, ?_, henrolled ▸ h.agents, ?_, ?_, ?_, ?_, ?_, hpartway⟩
  · rw [htexts, hretired]
    exact h.apart
  · rw [henrolled, hdb]
    exact h.exist
  · rw [henrolled, hall]
    exact h.origin
  · intro text hmem
    rw [hall]
    rcases hrevoked text hmem with hold | rfl
    · exact h.revokedKnown text hold
    · exact List.mem_map_of_mem (known_of_mem ht)
  · intro u hu hstill
    have hsame : Atomic p s' u ↔ Atomic p s u := by simp [Atomic, State.agentsOf, henrolled, hdb]
    rw [hsame]
    rcases hknown u hu with rfl | ⟨hold, hne⟩
    · exact hatomic
    · exact h.atomic u hold (hothers u.token hne hstill)
  · intro u hu hmem
    rcases hknown u hu with rfl | ⟨hold, hne⟩
    · exact hthis (htoken t ▸ hmem)
    · exact h.revoked u hold ((hrevoked u.token hmem).resolve_right hne)

/-- The last commit of an enrollment keeps the plane sound. -/
theorem sound_commitToken (h : Sound p s) {ticket : ProvisioningToken} {made : MadeRows}
    (hrunning : s.running = some (.rolesAdded ticket made)) (now : Int) :
    Sound p (commitNext p s now (.rolesAdded ticket made)) := by
  have hpartway := h.partway
  rw [Partway, hrunning] at hpartway
  obtain ⟨t, ht, hid, htext, hpending, hone, url, hrows⟩ := hpartway
  have hget : s.plane.getToken ticket.id = some t := hid ▸ getToken_of_mem ht
  have hnext : commitNext p s now (.rolesAdded ticket made) =
      { s with
        plane := s.plane.editToken t.id (·.completedWith made now) fun _ => rfl
        running := none } := by
    simp [commitNext, commitToken, hget, hid]
  rw [hnext]
  refine sound_editToken h ht (·.completedWith made now) (fun _ => rfl) (fun _ => rfl) rfl rfl rfl
    ?_ ?_ ?_ ?_ trivial
  · intro token hne _ henrolling
    have hticket : s.enrolling = some ticket.token := by simp [State.enrolling, hrunning]
    rw [hticket, ← htext] at henrolling
    exact hne (Option.some.inj henrolling).symm
  · unfold Atomic
    rw [if_pos (show (t.completedWith made now).status = .completed from rfl)]
    exact ⟨made, url, hone, rfl, rfl, rfl,
      hrows.agent, hrows.servers, hrows.balancers, hrows.asksServer, hrows.asksBalancer⟩
  · exact fun token => .inl
  · intro hmem
    have hrevoked := h.revoked t (known_of_mem ht) hmem
    rw [hpending] at hrevoked
    cases hrevoked

/-- The second half of a revocation. -/
theorem sound_writeRevoke (h : Sound p s) {id : Nat}
    (hclear : ∀ t, s.plane.getToken id = some t → s.enrolling ≠ some t.token ∧ t.status ≠ .completed) :
    Sound p (writeRevoke s id) := by
  cases hget : s.plane.getToken id with
  | none => simpa [writeRevoke, hget] using h
  | some t =>
      obtain ⟨ht, rfl⟩ := getToken_some hget
      obtain ⟨hother, hstatus⟩ := hclear t hget
      have hnext : writeRevoke s t.id =
          { s with
            plane := s.plane.editToken t.id ControlPlane.revoked ControlPlane.revoked_id
            revoked := s.revoked ++ [t.token] } := by
        simp [writeRevoke, hget, hstatus]
      rw [hnext]
      have hatomic := h.atomic t (known_of_mem ht) hother
      rw [Atomic, if_neg hstatus] at hatomic
      refine sound_editToken h ht ControlPlane.revoked (fun _ => rfl) (fun _ => rfl) rfl rfl rfl
        ?_ ?_ ?_ ?_ ?_
      · exact fun _ _ => id
      · rw [Atomic, if_neg (by simp [ControlPlane.revoked])]
        exact hatomic
      · intro token hmem
        simpa using hmem
      · exact fun _ => rfl
      · refine partway_kept h.partway rfl rfl rfl fun u hu henrolling => ?_
        refine List.mem_map.mpr ⟨u, hu, if_neg fun hsame => ?_⟩
        exact hother (eq_of_id_eq hu ht hsame ▸ henrolling)

/-- A deleted token keeps the state sound, if nobody enrolls with it. -/
theorem sound_deleteToken (h : Sound p s) {id : Nat}
    (hclear : ∀ t, s.plane.getToken id = some t → s.enrolling ≠ some t.token) :
    Sound p (deleteToken s id) := by
  unfold deleteToken
  cases hget : s.plane.getToken id with
  | none => exact h
  | some t =>
      obtain ⟨ht, rfl⟩ := getToken_some hget
      have hsublist : ((s.plane.removeToken t.id).tokens.map (·.token)).Sublist
          (s.plane.tokens.map (·.token)) := List.filter_sublist.map _
      -- the same rows are known as before
      have hknown : ∀ u, u ∈ (s.plane.removeToken t.id).tokens ++ (s.retired ++ [t]) ↔ u ∈ s.known := by
        intro u
        simp only [State.known, ControlPlane.removeToken, List.mem_append, List.mem_filter,
          List.mem_singleton, decide_eq_true_eq]
        constructor
        · rintro (⟨hu, -⟩ | hu | rfl)
          · exact .inl hu
          · exact .inr hu
          · exact .inl ht
        · rintro (hu | hu)
          · by_cases hsame : u.id = t.id
            · exact .inr (.inr (eq_of_id_eq hu ht hsame))
            · exact .inl ⟨hu, hsame⟩
          · exact .inr (.inl hu)
      have htexts : ∀ text ∈ s.known.map (·.token),
          text ∈ ((s.plane.removeToken t.id).tokens ++ (s.retired ++ [t])).map (·.token) := by
        intro text hmem
        obtain ⟨u, hu, rfl⟩ := List.mem_map.mp hmem
        exact List.mem_map_of_mem ((hknown u).mpr hu)
      refine ⟨h.unique.sublist hsublist, ?_, h.agents, h.exist, fun e he => htexts _ (h.origin e he),
        fun text hmem => htexts _ (h.revokedKnown text hmem), ?_, ?_, ?_⟩
      · intro text hmem hgone
        obtain ⟨u, hu, rfl⟩ := List.mem_map.mp hmem
        obtain ⟨hu, hne⟩ := List.mem_filter.mp hu
        rw [List.map_append, List.mem_append] at hgone
        rcases hgone with hgone | hgone
        · exact h.apart u.token (List.mem_map_of_mem hu) hgone
        · have hsame : u.token = t.token := by simpa using hgone
          rw [h.eq_of_token_eq ht (known_of_mem hu) hsame] at hne
          simp at hne
      · exact fun u hu => h.atomic u ((hknown u).mp hu)
      · exact fun u hu => h.revoked u ((hknown u).mp hu)
      · refine partway_kept h.partway rfl rfl rfl fun u hu henrolling => ?_
        refine List.mem_filter.mpr ⟨hu, ?_⟩
        have hne : u.id ≠ t.id := fun hsame =>
          hclear t hget (eq_of_id_eq hu ht hsame ▸ henrolling)
        simpa using hne

/-- A new token with a text of its own keeps the plane sound. -/
theorem sound_createToken (h : Sound p s) {payload : ProvisionRequest} {text password : String}
    {now : Int} (hfresh : text ∉ s.retired.map (·.token)) :
    Sound p { s with
      plane := s.plane.afterwards (s.plane.createToken p payload text password now) } := by
  cases hcreate : s.plane.createToken p payload text password now with
  | error e => exact h
  | ok plane =>
      obtain ⟨hdb, hunused, t, rfl, hpending, htokens⟩ := ControlPlane.createToken_ok hcreate
      have hnew : t.token ∉ s.known.map (·.token) := by
        rw [State.known, List.map_append, List.mem_append]
        exact not_or.mpr ⟨hunused, hfresh⟩
      have hmem : ∀ u ∈ plane.tokens ++ s.retired, u ∈ s.known ∨ u = t := by
        intro u hu
        rw [htokens, List.mem_append, List.mem_append, List.mem_singleton] at hu
        rcases hu with (hu | rfl) | hu
        · exact .inl (known_of_mem hu)
        · exact .inr rfl
        · exact .inl (List.mem_append_right _ hu)
      have htexts : ∀ text ∈ s.known.map (·.token),
          text ∈ (plane.tokens ++ s.retired).map (·.token) := by
        intro text htext
        simp only [State.known, htokens, List.map_append, List.mem_append] at htext ⊢
        exact htext.imp_left .inl
      refine ⟨?_, ?_, h.agents, ?_, fun e he => htexts _ (h.origin e he),
        fun text htext => htexts _ (h.revokedKnown text htext), ?_, ?_, ?_⟩
      · change (plane.tokens.map (·.token)).Nodup
        rw [htokens, List.map_append]
        refine List.Nodup.append h.unique (List.nodup_singleton _) ?_
        intro text htext hlast
        rw [List.map_singleton, List.mem_singleton] at hlast
        exact hunused (hlast ▸ htext)
      · change ∀ text ∈ plane.tokens.map (·.token), text ∉ s.retired.map (·.token)
        intro text htext
        rw [htokens, List.map_append, List.map_singleton, List.mem_append, List.mem_singleton] at htext
        rcases htext with hold | rfl
        · exact h.apart text hold
        · exact hfresh
      · change ∀ e ∈ s.enrolled, e.2 ∈ plane.db.agentIds
        rw [hdb]
        exact h.exist
      · intro u hu hstill
        have hsame : ∀ v, Atomic p { s with plane := plane } v ↔ Atomic p s v := by
          intro v
          simp [Atomic, State.agentsOf, hdb]
        refine (hsame u).mpr ?_
        rcases hmem u hu with hold | rfl
        · exact h.atomic u hold hstill
        · -- nothing was made from a token that is new
          rw [Atomic, if_neg (by simp [hpending]), List.eq_nil_iff_forall_not_mem]
          intro a ha
          exact hnew (h.origin _ (mem_agentsOf.mp ha))
      · intro u hu hrevoked
        rcases hmem u hu with hold | rfl
        · exact h.revoked u hold hrevoked
        · exact absurd (h.revokedKnown _ hrevoked) hnew
      · refine partway_kept h.partway rfl rfl hdb fun u hu _ => ?_
        change u ∈ plane.tokens
        rw [htokens]
        exact List.mem_append_left _ hu

/-- An enrollment request that arrives keeps the plane sound. -/
theorem sound_arrive (h : Sound p s) (token : String) (payload : EnrollRequest) (now : Int) :
    Sound p (arrive p s token payload now) := by
  unfold arrive
  split
  · rename_i admission hrunning hcheckRequest
    exact sound_setRunning h (by simp [State.enrolling, hrunning]) rfl
  · exact h

/-- Reading the token of a revocation keeps the plane sound. -/
theorem sound_readRevoke (h : Sound p s) (id : Nat) : Sound p (readRevoke s id) := by
  unfold readRevoke
  split
  · split
    · exact sound_setRevoking h _
    · exact h
  · exact h

/-- **One step keeps the invariant unless it comes between.** -/
theorem step_sound (h : Sound p s) {event : Event} (hclear : Undisturbed s event) :
    Sound p (step p s event) := by
  cases event with
  | createToken payload text password now => exact sound_createToken h hclear
  | enroll token payload now => exact sound_arrive h token payload now
  | commit now succeeds =>
      cases hrunning : s.running with
      | none => simpa [step, hrunning] using h
      | some progress =>
          have hcommit : step p s (.commit now succeeds) =
              if succeeds then commitNext p s now progress else { s with running := none } := by
            simp [step, hrunning]
          rw [hcommit]
          cases progress with
          | admitted admission =>
              cases succeeds with
              | false => exact sound_setRunning h (by simp [State.enrolling, hrunning]) rfl
              | true =>
                  have hadmitted : s.admitted = some admission := by simp [State.admitted, hrunning]
                  obtain ⟨t, hget, htext, hpending⟩ := hclear.2 rfl admission hadmitted
                  exact sound_commitAgent h hrunning now hget htext hpending
          | agentAdded ticket agentId url =>
              obtain rfl : succeeds = true := by
                simpa [hrunning, State.enrolling] using hclear.1
              exact sound_commitRoles h hrunning now
          | rolesAdded ticket made =>
              obtain rfl : succeeds = true := by
                simpa [hrunning, State.enrolling] using hclear.1
              exact sound_commitToken h hrunning now
  | readRevoke id => exact sound_readRevoke h id
  | writeRevoke id succeeds =>
      by_cases hrevoking : id ∈ s.revoking
      · cases succeeds with
        | false => simpa [step, hrevoking] using sound_setRevoking h _
        | true =>
            have hwrite := sound_writeRevoke (sound_setRevoking h (s.revoking.erase id))
              (hclear rfl hrevoking)
            simpa [step, hrevoking] using hwrite
      · simpa [step, hrevoking] using h
  | delete id succeeds =>
      cases succeeds with
      | false => exact h
      | true => exact sound_deleteToken h (hclear rfl)
  | crash => exact sound_setRunning (sound_setRevoking h []) hclear rfl

/-- A control plane without tokens is sound. -/
theorem start_sound {plane : ControlPlane} (h : plane.tokens = []) : Sound p (start plane) where
  unique := by simp [start, h]
  apart := by simp [start, h]
  agents := List.nodup_nil
  exist := by simp [start]
  origin := by simp [start]
  revokedKnown := by simp [start]
  atomic := by simp [start, State.known, h]
  revoked := by simp [start]
  partway := trivial

/-- A sound state in which nobody enrolls is settled. -/
theorem Sound.settled (h : Sound p s) (hidle : s.Idle) : Settled p s where
  atomic t ht := h.atomic t ht (by simp [State.enrolling, hidle.1])
  revoked t ht hrevoked := by
    rw [h.revoked t ht hrevoked]
    exact nofun

/-- **Between requests every token is all done or not begun.**  For every run, from
any control plane without tokens, of requests for tokens, enrollments, revocations and
deletions with a failure or a crash at any commit and any interleaving: if no step
comes between the check of a token and the last commit of its enrollment, then
whenever no request is in flight each token is completed with exactly one agent that
carries exactly the rows it asked for, or not completed with none, and no token that
was revoked before is completed. -/
theorem between_requests (p : Provisioner) (plane : ControlPlane) (h : plane.tokens = [])
    (events : List Event) (hrun : Along (step p) Undisturbed (start plane) events) :
    Throughout (step p) (fun s => s.Idle → Settled p s) (start plane) events := by
  have hstep : ∀ s event, Sound p s → Undisturbed s event → Sound p (step p s event) :=
    fun _ _ hs hclear => step_sound hs hclear
  have hsound : Throughout (step p) (Sound p) (start plane) events :=
    throughout_of_invariant (step p) hstep (start_sound h) hrun
  exact throughout_mono (step p) (fun _ hs hidle => hs.settled hidle) hsound

/-- A token for a host that runs AdGuard is made, and its enrollment is checked. -/
def checkedRun : List Event :=
  [.createToken ⟨"dns-a", none, [.adguard], .docker, none, none, false, 100, .dnsdist, false⟩
      "a" "secret" 0,
    .enroll "a" ⟨"csr", some "10.0.0.11", none⟩ 1]

/-- The theorem applies to an undisturbed run. -/
theorem between_requests_undisturbed :
    Throughout (step ControlPlane.defaultProvisioner)
      (fun s => s.Idle → Settled ControlPlane.defaultProvisioner s)
      (start ControlPlane.empty)
      (checkedRun ++ [.commit 1 true, .commit 1 true, .commit 1 true, .readRevoke 1]) :=
  between_requests ControlPlane.defaultProvisioner ControlPlane.empty rfl _ (by decide +kernel)

/-- The process dies after the first commit. -/
def crashedRun : List Event := checkedRun ++ [.commit 1 true, .crash]

/-- An agent is left behind by a token that stays pending. -/
theorem agent_of_a_pending_token : ¬ ∀ (p : Provisioner) (plane : ControlPlane),
    plane.tokens = [] → ∀ events,
      Throughout (step p) (fun s => s.Idle → Settled p s) (start plane) events := by
  intro h
  let p := ControlPlane.defaultProvisioner
  have hlast := throughout_last (step p) (h p ControlPlane.empty rfl crashedRun)
  have hsettled := hlast ⟨rfl, rfl⟩
  have hhalf : ∃ t ∈ (after (step p) (start ControlPlane.empty) crashedRun).known,
      t.status ≠ .completed ∧
        (after (step p) (start ControlPlane.empty) crashedRun).agentsOf t.token ≠ [] := by
    decide +kernel
  obtain ⟨t, ht, hstatus, hagents⟩ := hhalf
  have hatomic := hsettled.atomic t ht
  rw [Atomic, if_neg hstatus] at hatomic
  exact hagents hatomic

end AdguardAdmin.Enrollment
