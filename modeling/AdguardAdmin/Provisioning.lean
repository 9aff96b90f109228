import AdguardAdmin.BalancerPlan
import AdguardAdmin.Registry
import AdguardAdmin.Validators
/-!
# Provisioning tokens

A token asks for a host and for what shall run on it.  `enroll` redeems it: it checks
the token and the request, adds the agent and commits, adds the server and the
balancer and commits, marks the token and commits.  The three commits are three
functions here, and `enroll` runs them one after the other.
-/

namespace AdguardAdmin

open GoText PyText TableIds Validators
open Registry (HttpError)

/-- What a host may be asked to run. -/
inductive AgentRole where
  | adguard
  | dnsdist
  deriving DecidableEq, Repr

inductive ProvisionStatus where
  | pending
  | completed
  | revoked
  deriving DecidableEq, Repr

structure ProvisioningToken where
  id : Nat
  token : String
  name : String
  zoneId : Option Nat
  method : InstallMethod
  prune : Bool
  connectAddress : Option String
  adminUsername : String
  adminPasswordEnc : Option String
  roles : List AgentRole
  agentPort : Int
  vrrpPriority : Int
  exposeWebUi : Bool
  lbMode : LbMode
  status : ProvisionStatus
  expiresAt : Int
  completedAt : Option Int
  serverId : Option Nat
  agentId : Option Nat
  loadBalancerId : Option Nat
  deriving DecidableEq, Repr

def Database.agentIds (db : Database) : List Nat := db.agents.map (·.id)

/-- The database with its tokens.  Servers and balancers are on agents that exist. -/
structure ControlPlane where
  db : Database
  tokens : List ProvisioningToken
  tokenKeys : (tokens.map (·.id)).Nodup
  serverHosts : ∀ s ∈ db.servers, ∀ id, s.agentId = some id → id ∈ db.agentIds
  balancerHosts : ∀ lb ∈ db.loadBalancers, lb.agentId ∈ db.agentIds

/-- The settings, and the signing of certificate requests. -/
structure Provisioner extends Environment where
  agentDefaultPort : Int
  adguardDnsPort : Int
  tokenTtl : Int
  signAgentCsr : String → String → String → Except String String

/-! ## Checking a request -/

/-- The body of `enroll`, as far as it is stored or checked here. -/
structure EnrollRequest where
  csrPem : String
  address : Option String
  port : Option Int
  deriving DecidableEq, Repr

def ControlPlane.getToken (s : ControlPlane) (id : Nat) : Option ProvisioningToken :=
  s.tokens.find? (·.id = id)

def validPending (s : ControlPlane) (token : String) (now : Int) :
    Except HttpError ProvisioningToken :=
  match s.tokens.find? (·.token = token) with
  | none => .error ⟨404, "Unknown token"⟩
  | some t =>
      if t.status = .revoked then .error ⟨410, "Token revoked"⟩
      else if t.status = .completed then .error ⟨409, "Token already used"⟩
      else if t.expiresAt < now then .error ⟨410, "Token expired"⟩
      else .ok t

/-- A token and a request that passed the checks, with the certificate signed. -/
structure Admission where
  ticket : ProvisioningToken
  address : String
  port : Int
  cert : String

/-- The message of a failed check, and what it quotes. -/
def badRequest (e : Error) : HttpError := ⟨400, String.intercalate " " (e.format :: e.args)⟩

/-- Raise unless a condition is met. -/
def refuseIf (c : Prop) [Decidable c] (e : HttpError) : Except HttpError Unit :=
  if c then .error e else .ok ()

section Enroll

variable (p : Provisioner)

/-- `enroll` up to the first row it adds. -/
def checkRequest (s : ControlPlane) (token : String) (payload : EnrollRequest) (now : Int) :
    Except HttpError Admission := do
  let t ← validPending s token now
  let reported := orText (t.connectAddress.getD "") (payload.address.getD "")
  refuseIf (reported = "") ⟨400, "No address reported and none preconfigured"⟩
  let address ← (validateHost "address" reported).mapError badRequest
  let port := orDefault (payload.port.getD 0) (orDefault t.agentPort p.agentDefaultPort)
  let cert ← (p.signAgentCsr payload.csrPem t.name address).mapError (⟨400, ·⟩)
  return ⟨t, address, port, cert⟩

theorem getToken_of_mem {s : ControlPlane} {t : ProvisioningToken} (h : t ∈ s.tokens) :
    s.getToken t.id = some t := find?_key s.tokenKeys h

theorem getToken_some {s : ControlPlane} {id : Nat} {t : ProvisioningToken}
    (h : s.getToken id = some t) : t ∈ s.tokens ∧ t.id = id :=
  ⟨List.mem_of_find?_eq_some h, by simpa using List.find?_some h⟩

/-- A token that is valid is pending. -/
theorem validPending_ok {s : ControlPlane} {token : String} {now : Int} {t : ProvisioningToken}
    (h : validPending s token now = .ok t) : t ∈ s.tokens ∧ t.status = .pending := by
  unfold validPending at h
  split at h
  · cases h
  · rename_i found hfind
    split at h
    · cases h
    · rename_i hrevoked
      split at h
      · cases h
      · rename_i hcompleted
        split at h
        · cases h
        · obtain rfl := Except.ok.inj h
          refine ⟨List.mem_of_find?_eq_some hfind, ?_⟩
          cases hstatus : found.status with
          | pending => rfl
          | completed => exact absurd hstatus hcompleted
          | revoked => exact absurd hstatus hrevoked

/-- A request is admitted only with a token that is there and pending. -/
theorem checkRequest_ok {s : ControlPlane} {token : String} {payload : EnrollRequest} {now : Int}
    {admission : Admission} (h : checkRequest p s token payload now = .ok admission) :
    admission.ticket ∈ s.tokens ∧ admission.ticket.status = .pending := by
  unfold checkRequest at h
  obtain ⟨t, hvalid, h⟩ := bind_ok.mp h
  obtain ⟨-, -, h⟩ := bind_ok.mp h
  obtain ⟨address, -, h⟩ := bind_ok.mp h
  obtain ⟨cert, -, h⟩ := bind_ok.mp h
  obtain rfl := pure_ok.mp h
  exact validPending_ok hvalid

/-! ## The rows a token asks for -/

def agentUrl (address : String) (port : Int) : String :=
  "https://" ++ formatHostPort address.toList port

/-- The proxy the agent runs in front of its AdGuard. -/
def adguardUrlViaAgent (url : String) : String :=
  String.ofList (rstripBy (· = '/') url.toList) ++ "/v1/adguard/api"

/-- `set(t.roles or ["adguard"])`. -/
def ProvisioningToken.asked (t : ProvisioningToken) : List AgentRole :=
  if t.roles = [] then [.adguard] else t.roles

/-- A server for the token, on an agent. -/
def enrolledServer (t : ProvisioningToken) (id agentId : Nat) (url : String) : Server where
  id := id
  name := t.name
  url := adguardUrlViaAgent url
  username := some t.adminUsername
  passwordEnc := t.adminPasswordEnc
  zoneId := t.zoneId
  enabled := true
  agentId := some agentId
  dnsPort := p.adguardDnsPort
  exposeWebUi := t.exposeWebUi
  installMethod := some t.method
  tlsCert := some "@agent"
  prune := t.prune
  manageUpstreams := false
  manageFiltering := false

/-- A balancer with the defaults of the model. -/
def newBalancer (id agentId : Nat) (zoneId : Option Nat) (mode : LbMode) : LoadBalancer where
  id := id
  zoneId := zoneId
  agentId := agentId
  enabled := true
  installMethod := .docker
  image := "powerdns/dnsdist-20:2.0.8"
  listenAddresses := ["0.0.0.0:53"]
  policy := .leastOutstanding
  ecs := true
  cacheEnabled := false
  cacheMaxEntries := 100000
  hcName := "a.root-servers.net."
  hcIntervalS := 1
  hcMaxFailures := 3
  hcRise := 2
  hcMode := .auto
  acl := ["127.0.0.0/8", "10.0.0.0/8", "172.16.0.0/12", "192.168.0.0/16", "::1/128", "fc00::/7",
    "fe80::/10"]
  vrrpPriority := 100
  vipInterface := ""
  mode := mode
  ipvsAlgo := .wlc

/-- A balancer for the token, on an agent. -/
def enrolledBalancer (t : ProvisioningToken) (id agentId : Nat) : LoadBalancer :=
  { newBalancer id agentId t.zoneId t.lbMode with
    image := p.dnsdistImage
    vrrpPriority := t.vrrpPriority }

/-- The server row the second commit adds, if the token asks for one. -/
def askedServer (db : Database) (t : ProvisioningToken) (agentId : Nat) (url : String) :
    Option Server :=
  if .adguard ∈ t.asked then
    some (enrolledServer p t (nextId (db.servers.map (·.id))) agentId url)
  else none

/-- The balancer row the second commit adds, if the token asks for one. -/
def askedBalancer (db : Database) (t : ProvisioningToken) (agentId : Nat) : Option LoadBalancer :=
  if .dnsdist ∈ t.asked then
    some (enrolledBalancer p t (nextId (db.loadBalancers.map (·.id))) agentId)
  else none

/-! ## The three commits -/

def Database.addAgent (db : Database) (address : String) : Database :=
  { db with
    agents := db.agents ++ [⟨nextId db.agentIds, address⟩]
    agentKeys := nodup_append_nextId db.agentKeys rfl }

theorem Database.agentIds_addAgent (db : Database) (address : String) :
    (db.addAgent address).agentIds = db.agentIds ++ [nextId db.agentIds] := by
  simp [addAgent, agentIds]

/-- The first commit: the agent. -/
def commitAgent (s : ControlPlane) (address : String) : ControlPlane :=
  { s with
    db := s.db.addAgent address
    serverHosts := fun v hv id hid => by
      rw [Database.agentIds_addAgent]
      exact List.mem_append_left _ (s.serverHosts v hv id hid)
    balancerHosts := fun lb hlb => by
      rw [Database.agentIds_addAgent]
      exact List.mem_append_left _ (s.balancerHosts lb hlb) }

/-- The server that a token asks for has the next id, and the agent. -/
theorem askedServer_id {db : Database} {t : ProvisioningToken} {agentId : Nat} {url : String}
    {row : Server} (h : row ∈ askedServer p db t agentId url) :
    row.id = nextId (db.servers.map (·.id)) ∧ row.agentId = some agentId := by
  unfold askedServer at h
  split at h
  · obtain rfl := Option.mem_some.mp h
    exact ⟨rfl, rfl⟩
  · cases h

/-- A balancer that is asked for gets the next id, and the agent's host. -/
theorem askedBalancer_id {db : Database} {t : ProvisioningToken} {agentId : Nat}
    {row : LoadBalancer} (h : row ∈ askedBalancer p db t agentId) :
    row.id = nextId (db.loadBalancers.map (·.id)) ∧ row.agentId = agentId := by
  unfold askedBalancer at h
  split at h
  · obtain rfl := Option.mem_some.mp h
    exact ⟨rfl, rfl⟩
  · cases h

/-- The keys a foreign key of the second commit is checked against. -/
def commitRows (s : ControlPlane) (t : ProvisioningToken) (agentId : Nat) (url : String)
    (h : agentId ∈ s.db.agentIds) : ControlPlane :=
  { s with
    db := { s.db with
      servers := s.db.servers ++ (askedServer p s.db t agentId url).toList
      loadBalancers := s.db.loadBalancers ++ (askedBalancer p s.db t agentId).toList
      serverKeys := nodup_append_toList s.db.serverKeys fun _ hrow => (askedServer_id p hrow).1
      loadBalancerKeys :=
        nodup_append_toList s.db.loadBalancerKeys fun _ hrow => (askedBalancer_id p hrow).1 }
    serverHosts := fun v hv id hid => by
      rcases List.mem_append.mp hv with hold | hnew
      · exact s.serverHosts v hold id hid
      · rw [(askedServer_id p (Option.mem_toList.mp hnew)).2] at hid
        exact Option.some.inj hid ▸ h
    balancerHosts := fun lb hlb => by
      rcases List.mem_append.mp hlb with hold | hnew
      · exact s.balancerHosts lb hold
      · exact (askedBalancer_id p (Option.mem_toList.mp hnew)).2 ▸ h }

/-- What `enroll` still holds after the second commit. -/
structure MadeRows where
  agentId : Nat
  serverId : Option Nat
  loadBalancerId : Option Nat
  deriving DecidableEq, Repr

/-- The second commit: the server and the balancer.  The first commit expired the
token, so the row is read again. -/
def commitRoles (s : ControlPlane) (tokenId agentId : Nat) (url : String) :
    Except HttpError (ControlPlane × MadeRows) :=
  match s.getToken tokenId with
  | none => .error ⟨500, "ObjectDeletedError"⟩
  | some t =>
      if h : agentId ∈ s.db.agentIds then
        .ok (commitRows p s t agentId url h,
          { agentId := agentId
            serverId := (askedServer p s.db t agentId url).map (·.id)
            loadBalancerId := (askedBalancer p s.db t agentId).map (·.id) })
      else .error ⟨500, "FOREIGN KEY constraint failed"⟩

def ProvisioningToken.completedWith (t : ProvisioningToken) (made : MadeRows) (now : Int) :
    ProvisioningToken :=
  { t with
    status := .completed
    completedAt := some now
    agentId := some made.agentId
    serverId := made.serverId
    loadBalancerId := made.loadBalancerId }

/-- Edit one token, keeping its id. -/
def ControlPlane.editToken (s : ControlPlane) (id : Nat) (edit : ProvisioningToken → ProvisioningToken)
    (hedit : ∀ t, (edit t).id = t.id) : ControlPlane :=
  { s with
    tokens := s.tokens.map fun t => if t.id = id then edit t else t
    tokenKeys := nodup_map_edit s.tokenKeys fun t => by
      split
      · exact hedit t
      · rfl }

/-- The third commit: the token is used up. -/
def commitToken (s : ControlPlane) (tokenId : Nat) (made : MadeRows) (now : Int) :
    Except HttpError ControlPlane :=
  if (s.getToken tokenId).isSome then
    .ok (s.editToken tokenId (·.completedWith made now) fun _ => rfl)
  else .error ⟨500, "StaleDataError"⟩

/-- The whole request, with nothing else going on.  The database afterwards and the
answer: the agent's id. -/
def enroll (s : ControlPlane) (token : String) (payload : EnrollRequest) (now : Int) :
    ControlPlane × Except HttpError Nat :=
  match checkRequest p s token payload now with
  | .error e => (s, .error e)
  | .ok admission =>
      let agentId := nextId s.db.agentIds
      let s := commitAgent s admission.address
      match commitRoles p s admission.ticket.id agentId (agentUrl admission.address admission.port) with
      | .error e => (s, .error e)
      | .ok (s, made) =>
          match commitToken s admission.ticket.id made now with
          | .error e => (s, .error e)
          | .ok s => (s, .ok agentId)

/-- With nothing else going on, an admitted request adds all of its rows. -/
theorem enroll_db {s : ControlPlane} {token : String} {payload : EnrollRequest} {now : Int}
    {admission : Admission} (h : checkRequest p s token payload now = .ok admission) :
    ∃ hhost, (enroll p s token payload now).1.db =
      (commitRows p (commitAgent s admission.address) admission.ticket (nextId s.db.agentIds)
        (agentUrl admission.address admission.port) hhost).db := by
  have hhost : nextId s.db.agentIds ∈ (commitAgent s admission.address).db.agentIds := by
    rw [commitAgent, Database.agentIds_addAgent]
    exact List.mem_append_right _ (List.mem_singleton_self _)
  have hticket := getToken_of_mem (checkRequest_ok p h).1
  refine ⟨hhost, ?_⟩
  have hagain : ∀ t, (commitRows p (commitAgent s admission.address) t (nextId s.db.agentIds)
      (agentUrl admission.address admission.port) hhost).getToken admission.ticket.id =
        some admission.ticket := fun _ => hticket
  have hbefore : (commitAgent s admission.address).getToken admission.ticket.id =
      some admission.ticket := hticket
  simp [enroll, h, commitRoles, hbefore, hhost, commitToken, hagain, ControlPlane.editToken]

end Enroll

end AdguardAdmin
