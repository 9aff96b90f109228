import AdguardAdmin.BalancerRules
/-!
# Editing servers and hosts

The requests that write the server table, and the one that forgets a host with what is
on it.  Each `_ok` lemma says what an accepted request leaves of the tables.
-/

namespace AdguardAdmin

open GoText PyText TableIds
open Registry (HttpError)

/-! ## Bodies -/

structure ServerCreate where
  name : String
  url : String
  username : Option String
  password : Option String
  zoneId : Option Nat
  enabled : Bool
  prune : Bool
  manageUpstreams : Bool
  manageFiltering : Bool
  installMethod : Option InstallMethod
  dnsPort : Int
  exposeWebUi : Bool

/-- A body that edits a server: each column can be left out, null or a value. -/
structure ServerUpdate where
  name : Option (Option String)
  url : Option (Option String)
  username : Option (Option String)
  password : Option (Option String)
  zoneId : Option (Option Nat)
  enabled : Option (Option Bool)
  prune : Option (Option Bool)
  manageUpstreams : Option (Option Bool)
  manageFiltering : Option (Option Bool)
  installMethod : Option (Option InstallMethod)
  dnsPort : Option (Option Int)
  exposeWebUi : Option (Option Bool)

/-- `url.rstrip("/")`. -/
def rstripSlashes (url : String) : String := String.ofList (rstripBy (· = '/') url.toList)

def managedDetail (key : String) : String :=
  key ++ " is managed by the host agent and cannot be changed here"

namespace ServerUpdate

variable (data : ServerUpdate)

/-- The agent owns the connection and the credentials of a managed host. -/
def leaveToAgent (v : Server) : Except HttpError ServerUpdate :=
  if v.agentId.isSome then do
    refuseIf ((data.url.getD none).getD "" ≠ "") ⟨400, managedDetail "url"⟩
    refuseIf ((data.username.getD none).getD "" ≠ "") ⟨400, managedDetail "username"⟩
    refuseIf ((data.password.getD none).getD "" ≠ "") ⟨400, managedDetail "password"⟩
    return { data with url := none, username := none, password := none }
  else .ok data

/-- Some column that cannot be null is set to null. -/
def Nulls : Prop :=
  data.name = some none ∨ data.url = some none ∨ data.enabled = some none ∨
    data.prune = some none ∨ data.manageUpstreams = some none ∨ data.manageFiltering = some none ∨
    data.dnsPort = some none ∨ data.exposeWebUi = some none

instance : Decidable data.Nulls := by
  unfold Nulls
  infer_instance

/-- Set the columns that are given. -/
def set (passwordEnc : Option String) (v : Server) : Server :=
  { v with
    name := (data.name.getD none).getD v.name
    url := ((data.url.getD none).map rstripSlashes).getD v.url
    username := data.username.getD v.username
    passwordEnc := passwordEnc
    zoneId := data.zoneId.getD v.zoneId
    enabled := (data.enabled.getD none).getD v.enabled
    prune := (data.prune.getD none).getD v.prune
    manageUpstreams := (data.manageUpstreams.getD none).getD v.manageUpstreams
    manageFiltering := (data.manageFiltering.getD none).getD v.manageFiltering
    installMethod := data.installMethod.getD v.installMethod
    dnsPort := (data.dnsPort.getD none).getD v.dnsPort
    exposeWebUi := (data.exposeWebUi.getD none).getD v.exposeWebUi }

end ServerUpdate

/-! ## Rows -/

def Database.getServer (db : Database) (id : Nat) : Option Server := db.servers.find? (·.id = id)

/-- A server that is found is there, with that id. -/
theorem getServer_some {db : Database} {id : Nat} {v : Server} (h : db.getServer id = some v) :
    v ∈ db.servers ∧ v.id = id :=
  ⟨List.mem_of_find?_eq_some h, by simpa using List.find?_some h⟩

theorem getServer_of_mem {db : Database} {v : Server} (h : v ∈ db.servers) :
    db.getServer v.id = some v := find?_key db.serverKeys h

/-- `_validate_zone` of the servers' router. -/
def validateZone (db : Database) (zoneId : Option Nat) : Except HttpError Unit :=
  refuseIf (zoneId.any fun id => (db.getZone id).isNone) ⟨400, "zone_id does not exist"⟩

section Rows

variable (env : Environment)

/-- An empty password is stored as null, any other one encrypted. -/
def encryptedPassword (password : Option String) : Except HttpError (Option String) :=
  if password.getD "" = "" then .ok none
  else (env.encryptSecret (password.getD "")).elim (.error ⟨500, "Internal Server Error"⟩)
    (.ok ∘ some)

/-- The row a request adds. -/
def createdServer (db : Database) (payload : ServerCreate) : Except HttpError Server := do
  validateZone db payload.zoneId
  let passwordEnc ← encryptedPassword env payload.password
  return {
    id := nextId (db.servers.map (·.id))
    name := payload.name
    url := rstripSlashes payload.url
    username := payload.username
    passwordEnc := passwordEnc
    zoneId := payload.zoneId
    enabled := payload.enabled
    agentId := none
    dnsPort := payload.dnsPort
    exposeWebUi := payload.exposeWebUi
    installMethod := payload.installMethod
    tlsCert := none
    prune := payload.prune
    manageUpstreams := payload.manageUpstreams
    manageFiltering := payload.manageFiltering }

/-- The row an update leaves in the place of `v`. -/
def updatedServer (db : Database) (v : Server) (data : ServerUpdate) : Except HttpError Server := do
  validateZone db (data.zoneId.getD none)
  let data ← data.leaveToAgent v
  -- only a password that is not empty is rotated
  let rotated ← encryptedPassword env (data.password.getD none)
  refuseIf data.Nulls ⟨500, "NOT NULL constraint failed"⟩
  return data.set (rotated.or v.passwordEnc) v

variable {env}

/-- A new server has the next id and no agent. -/
theorem createdServer_ok {db : Database} {payload : ServerCreate} {v : Server}
    (h : createdServer env db payload = .ok v) :
    v.id = nextId (db.servers.map (·.id)) ∧ v.agentId = none := by
  obtain ⟨-, -, h⟩ := bind_ok.mp h
  obtain ⟨passwordEnc, -, h⟩ := bind_ok.mp h
  obtain rfl := pure_ok.mp h
  exact ⟨rfl, rfl⟩

/-- An update leaves the row under its id and on its host. -/
theorem updatedServer_ok {db : Database} {v new : Server} {data : ServerUpdate}
    (h : updatedServer env db v data = .ok new) : new.id = v.id ∧ new.agentId = v.agentId := by
  obtain ⟨-, -, h⟩ := bind_ok.mp h
  obtain ⟨data', -, h⟩ := bind_ok.mp h
  obtain ⟨rotated, -, h⟩ := bind_ok.mp h
  obtain ⟨-, -, h⟩ := bind_ok.mp h
  obtain rfl := pure_ok.mp h
  exact ⟨rfl, rfl⟩

end Rows

/-- A server whose host is forgotten. -/
def Server.detached (v : Server) : Server := { v with agentId := none, tlsCert := none }

/-! ## Requests -/

namespace ControlPlane

variable (env : Environment) (s : ControlPlane)

/-- Write the server table.  The host of every server exists. -/
def setServers (servers : List Server) (hkeys : (servers.map (·.id)).Nodup)
    (hhosts : ∀ v ∈ servers, ∀ id, v.agentId = some id → id ∈ s.db.agentIds) : ControlPlane :=
  { s with
    db := { s.db with servers := servers, serverKeys := hkeys }
    serverHosts := hhosts }

/-- The agents of the servers that are left are there. -/
theorem serverHosts_filter (p : Server → Bool) :
    ∀ v ∈ s.db.servers.filter p, ∀ id, v.agentId = some id → id ∈ s.db.agentIds :=
  fun v hv => s.serverHosts v (List.mem_filter.mp hv).1

def addServer (v : Server) (hid : v.id = nextId (s.db.servers.map (·.id)))
    (hhost : v.agentId = none) : ControlPlane :=
  s.setServers (s.db.servers ++ [v]) (nodup_append_nextId s.db.serverKeys hid)
    fun row hrow id hrowHost => by
      rcases List.mem_append.mp hrow with hold | hnew
      · exact s.serverHosts row hold id hrowHost
      · rw [List.mem_singleton.mp hnew, hhost] at hrowHost
        cases hrowHost

/-- Put a row in the place of one on the same host. -/
def putServer (old : Server) (hold : old ∈ s.db.servers) (v : Server)
    (hhost : v.agentId = old.agentId) : ControlPlane :=
  s.setServers (putRow (·.id) v s.db.servers) (nodup_putRow s.db.serverKeys v)
    fun row hrow id hrowHost => by
      obtain ⟨other, hother, rfl⟩ := List.mem_map.mp hrow
      split at hrowHost
      · exact s.serverHosts old hold id (hhost ▸ hrowHost)
      · exact s.serverHosts other hother id hrowHost

def createServer (payload : ServerCreate) : Except HttpError ControlPlane :=
  match h : createdServer env s.db payload with
  | .error e => .error e
  | .ok v => .ok (s.addServer v (createdServer_ok h).1 (createdServer_ok h).2)

def updateServer (id : Nat) (data : ServerUpdate) : Except HttpError ControlPlane :=
  match hget : s.db.getServer id with
  | none => .error ⟨404, "Server not found"⟩
  | some v =>
      match h : updatedServer env s.db v data with
      | .error e => .error e
      | .ok new => .ok (s.putServer v (getServer_some hget).1 new (updatedServer_ok h).2)

/-- The references to a server that its deletion clears first. -/
def releaseServer (id : Nat) : ControlPlane :=
  { s with
    db := { s.db with overrides := s.db.overrides.filter (·.serverId ≠ id) }
    tokens := s.tokens.map fun t =>
      { t with serverId := if t.serverId = some id then none else t.serverId }
    tokenKeys := nodup_map_edit s.tokenKeys fun _ => rfl }

/-- `others` is what the tables that can name a server and are not released answer to
the second commit. -/
def deleteServer (id : Nat) (others : Except HttpError Unit) :
    ControlPlane × Except HttpError Unit :=
  match s.db.getServer id with
  | none => (s, .error ⟨404, "Server not found"⟩)
  | some _ =>
      let released := s.releaseServer id
      match others with
      | .error e => (released, .error e)
      | .ok () =>
          (released.setServers (released.db.servers.filter (·.id ≠ id))
            (nodup_filter released.db.serverKeys _) (released.serverHosts_filter _), .ok ())

/-- The servers of a forgotten host stay, without it. -/
def forgotten (id : Nat) (v : Server) : Server := if v.agentId = some id then v.detached else v

/-- A server that forgets its agent keeps its id. -/
theorem forgotten_id (id : Nat) (v : Server) : (forgotten id v).id = v.id := by
  unfold forgotten
  split <;> rfl

/-- Removing an agent leaves the ids of the others. -/
theorem agentIds_filter {db : Database} {id host : Nat} (hhost : host ∈ db.agentIds)
    (hne : host ≠ id) : host ∈ (db.agents.filter (·.id ≠ id)).map (·.id) := by
  obtain ⟨agent, hagent, rfl⟩ := List.mem_map.mp hhost
  exact List.mem_map_of_mem (List.mem_filter.mpr ⟨hagent, decide_eq_true hne⟩)

/-- The servers of the other hosts stay with them. -/
theorem serverHosts_forgotten (id : Nat) :
    ∀ v ∈ s.db.servers.map (forgotten id), ∀ host, v.agentId = some host →
      host ∈ (s.db.agents.filter (·.id ≠ id)).map (·.id) := by
  intro v hv host hhost
  obtain ⟨old, hold, rfl⟩ := List.mem_map.mp hv
  unfold forgotten at hhost
  split at hhost
  · cases hhost
  · rename_i hother
    refine agentIds_filter (s.serverHosts old hold host hhost) ?_
    rintro rfl
    exact hother hhost

/-- Removing an agent with its balancers leaves the other balancers on hosts that are there. -/
theorem balancerHosts_elsewhere (id : Nat) :
    ∀ lb ∈ s.db.loadBalancers.filter (·.agentId ≠ id),
      lb.agentId ∈ (s.db.agents.filter (·.id ≠ id)).map (·.id) := by
  intro lb hlb
  obtain ⟨hmem, hne⟩ := List.mem_filter.mp hlb
  exact agentIds_filter (s.balancerHosts lb hmem) (of_decide_eq_true hne)

/-- The tables without a host and its balancers; its servers are detached. -/
def withoutAgent (id : Nat) : ControlPlane :=
  let gone := (s.db.loadBalancers.filter (·.agentId = id)).map (·.id)
  { db := { s.db with
      agents := s.db.agents.filter (·.id ≠ id)
      servers := s.db.servers.map (forgotten id)
      loadBalancers := s.db.loadBalancers.filter (·.agentId ≠ id)
      overrides := s.db.overrides.filter (·.loadBalancerId ∉ gone)
      agentKeys := nodup_filter s.db.agentKeys _
      serverKeys := nodup_map_edit s.db.serverKeys (forgotten_id id)
      loadBalancerKeys := nodup_filter s.db.loadBalancerKeys _ }
    tokens := s.tokens.map fun t =>
      { t with
        agentId := if t.agentId = some id then none else t.agentId
        loadBalancerId := t.loadBalancerId.filter (· ∉ gone) }
    tokenKeys := nodup_map_edit s.tokenKeys fun _ => rfl
    serverHosts := s.serverHosts_forgotten id
    balancerHosts := s.balancerHosts_elsewhere id }

def deleteAgent (id : Nat) (force : Bool) : Except HttpError ControlPlane :=
  match s.db.getAgent id with
  | none => .error ⟨404, "Host not found"⟩
  | some _ =>
      if ((s.db.servers.any (·.agentId = some id)) ∨ s.db.loadBalancers.any (·.agentId = id)) ∧
          ¬ force then
        .error ⟨409, "This host still has servers or load balancers; delete them first or use " ++
          "force=true"⟩
      else .ok (s.withoutAgent id)

/-! ## What an accepted request leaves -/

variable {env s} {s' : ControlPlane}

/-- What a new server leaves. -/
theorem createServer_ok {payload : ServerCreate} (h : s.createServer env payload = .ok s') :
    ∃ v, s'.db.servers = s.db.servers ++ [v] ∧ v.id ∉ s.db.servers.map (·.id) ∧
      s'.db.agents = s.db.agents ∧ s'.db.loadBalancers = s.db.loadBalancers := by
  unfold createServer at h
  split at h
  · cases h
  · rename_i v hv
    obtain rfl := Except.ok.inj h
    refine ⟨v, rfl, ?_, rfl, rfl⟩
    rw [(createdServer_ok hv).1]
    exact nextId_not_mem _

/-- What an accepted change of a server leaves. -/
theorem updateServer_ok {id : Nat} {data : ServerUpdate}
    (h : s.updateServer env id data = .ok s') :
    ∃ v new, s.db.getServer id = some v ∧ updatedServer env s.db v data = .ok new ∧
      s'.db.servers = putRow (·.id) new s.db.servers ∧ s'.db.agents = s.db.agents ∧
      s'.db.loadBalancers = s.db.loadBalancers := by
  unfold updateServer at h
  split at h
  · cases h
  · rename_i v hget
    split at h
    · cases h
    · rename_i new hnew
      obtain rfl := Except.ok.inj h
      exact ⟨v, new, hget, hnew, rfl, rfl, rfl⟩

/-- An update that passes its checks is accepted. -/
theorem exists_updateServer {id : Nat} {data : ServerUpdate} {v new : Server}
    (hget : s.db.getServer id = some v) (hnew : updatedServer env s.db v data = .ok new) :
    ∃ s', s.updateServer env id data = .ok s' ∧
      s'.db.servers = putRow (·.id) new s.db.servers := by
  cases hresult : s.updateServer env id data with
  | ok s' =>
      obtain ⟨v', new', hget', hnew', hservers, -, -⟩ := updateServer_ok hresult
      obtain rfl := Option.some.inj (hget.symm.trans hget')
      obtain rfl := Except.ok.inj (hnew.symm.trans hnew')
      exact ⟨s', rfl, hservers⟩
  | error e =>
      unfold updateServer at hresult
      split at hresult
      · rename_i hnone
        cases hnone.symm.trans hget
      · rename_i v' hget'
        obtain rfl := Option.some.inj (hget.symm.trans hget')
        split at hresult
        · rename_i e' hfail
          cases hfail.symm.trans hnew
        · cases hresult

/-- A deletion leaves only servers that were there. -/
theorem deleteServer_rows (id : Nat) (others : Except HttpError Unit) :
    (∀ v ∈ (s.deleteServer id others).1.db.servers, v ∈ s.db.servers) ∧
      (s.deleteServer id others).1.db.agents = s.db.agents ∧
      (s.deleteServer id others).1.db.loadBalancers = s.db.loadBalancers := by
  unfold deleteServer
  split
  · exact ⟨fun _ hv => hv, rfl, rfl⟩
  · cases others with
    | error e => exact ⟨fun _ hv => hv, rfl, rfl⟩
    | ok u => exact ⟨fun _ hv => (List.mem_filter.mp hv).1, rfl, rfl⟩

/-- A deleted agent is gone, with what was its own. -/
theorem deleteAgent_ok {id : Nat} {force : Bool} (h : s.deleteAgent id force = .ok s') :
    s' = s.withoutAgent id := by
  unfold deleteAgent at h
  split at h
  · cases h
  · split at h
    · cases h
    · exact (Except.ok.inj h).symm

end ControlPlane

end AdguardAdmin
