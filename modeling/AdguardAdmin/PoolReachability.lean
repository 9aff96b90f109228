import AdguardAdmin.SpecBuilders
/-!
# Where a balancer dials and where a server listens

`desiredBackends` decides where a balancer finds a server, `plannedAdguard`
decides where that server's AdGuard listens.  Both look at the balancing mode and
at whether a dnsdist balancer shares the server's host, but not at the same
balancer: a server whose host runs a dnsdist balancer listens on loopback, for
every balancer, while the balancers of other hosts dial its address.

`reachable_iff` gives the exact condition under which the two agree.
-/

namespace AdguardAdmin

/-- Whether sockets bound to `binds` accept a connection to an address, made from
the server's own host or from another one. -/
def accepts (binds : List String) (address : String) (sameHost : Bool) : Bool :=
  binds.any fun bind => bind = "0.0.0.0" ∨ (bind = "127.0.0.1" ∧ address = "127.0.0.1" ∧ sameHost)

/-- The balancer's target is served by the AdGuard planned for the server. -/
def Reachable (env : Environment) (db : Database) (lb : LoadBalancer) (b : BackendTarget)
    (agentId : Nat) (s : Server) : Prop :=
  b.port = (plannedAdguard env db agentId s).dnsPort ∧
    accepts (plannedAdguard env db agentId s).dnsBind b.address (agentId = lb.agentId) = true

/-- The two derivations meet: a direct-routing server is dialled on port 53; a
server behind a dnsdist balancer on its own host is dialled by that host's
balancer; any other server is dialled on its own port. -/
def Agrees (env : Environment) (db : Database) (lb : LoadBalancer) (agent : Agent) (s : Server) :
    Prop :=
  if serverIpvs db s then
    lb.mode = .ipvs ∨
      (if agent.id = lb.agentId ∨ db.zoneHasBalancerOnAgent agent.id then
        env.adguardColocatedDnsPort else orDefault s.dnsPort 53) = 53
  else if db.zoneHasBalancerOnAgent agent.id then
    agent.id = lb.agentId ∧
      (lb.mode = .dnsdist ∨ (env.adguardColocatedDnsPort = 53 ∧ agent.address = "127.0.0.1"))
  else lb.mode = .ipvs → orDefault s.dnsPort 53 = 53

/-- Where a target on a managed host is dialled. -/
theorem endpoint_of_managed {env : Environment} {db : Database} {lb : LoadBalancer}
    {b : BackendTarget} {agent : Agent} {s : Server}
    (htarget : backendTarget env db lb s = some b)
    (hhost : s.agentId = some agent.id) (hagent : db.getAgent agent.id = some agent) :
    (b.address, b.port) =
      if lb.mode = .ipvs then (agent.address, 53)
      else if agent.id = lb.agentId then ("127.0.0.1", env.adguardColocatedDnsPort)
      else (agent.address,
        if db.zoneHasBalancerOnAgent agent.id then env.adguardColocatedDnsPort
        else orDefault s.dnsPort 53) := by
  obtain ⟨hendpoint, -⟩ := backendTarget_eq_some htarget
  simp only [backendEndpoint, hhost, hagent, Option.map_some, Option.some.injEq] at hendpoint
  exact hendpoint.symm

/-- **A target is reachable exactly when the two derivations meet.** -/
theorem reachable_iff (env : Environment) (db : Database) (lb : LoadBalancer) (b : BackendTarget)
    (agent : Agent) (s : Server) (hlb : lb ∈ db.loadBalancers) (henabled : lb.enabled = true)
    (hb : b ∈ desiredBackends env db lb) (hs : s ∈ db.servers) (hid : s.id = b.serverId)
    (hhost : s.agentId = some agent.id) (hagent : db.getAgent agent.id = some agent) :
    Reachable env db lb b agent.id s ↔ Agrees env db lb agent s := by
  obtain ⟨t, ht, -, -, -, htarget⟩ := mem_desiredBackends hb
  obtain rfl : s = t :=
    db.server_eq_of_id_eq hs ht (hid.trans (backendTarget_eq_some htarget).2.2.1)
  have hendpoint := endpoint_of_managed htarget hhost hagent
  -- an enabled dnsdist balancer on the server's own host is one the server's plan sees
  have hcolocated : lb.mode = .dnsdist → agent.id = lb.agentId →
      db.zoneHasBalancerOnAgent agent.id = true := fun hmode hsame =>
    db.zoneHasBalancerOnAgent_iff.mpr ⟨lb, hlb, hsame.symm, henabled, hmode⟩
  unfold Reachable Agrees plannedAdguard adguardSpec accepts
  cases hmode : lb.mode with
  | ipvs =>
      obtain ⟨haddress, hport⟩ : b.address = agent.address ∧ b.port = 53 := by
        simpa [hmode] using hendpoint
      by_cases hipvs : serverIpvs db s = true
      · simp [hipvs, hport]
      · by_cases hshared : db.zoneHasBalancerOnAgent agent.id = true
        · have hreorder :
              (53 = env.adguardColocatedDnsPort ∧ agent.address = "127.0.0.1" ∧
                agent.id = lb.agentId) ↔
              (agent.id = lb.agentId ∧ env.adguardColocatedDnsPort = 53 ∧
                agent.address = "127.0.0.1") := by
            constructor
            · exact fun ⟨hp, ha, hsame⟩ => ⟨hsame, hp.symm, ha⟩
            · exact fun ⟨hsame, hp, ha⟩ => ⟨hp.symm, ha, hsame⟩
          simpa [hipvs, hshared, haddress, hport] using hreorder
        · simp [hipvs, hshared, hport, eq_comm]
  | dnsdist =>
      by_cases hsame : agent.id = lb.agentId
      · have hshared := hcolocated hmode hsame
        obtain ⟨haddress, hport⟩ :
            b.address = "127.0.0.1" ∧ b.port = env.adguardColocatedDnsPort := by
          simpa [hmode, hsame] using hendpoint
        by_cases hipvs : serverIpvs db s = true
        · simp [hipvs, hsame, hport]
        · rw [hsame] at hshared
          simp [hipvs, hsame, hshared, haddress, hport]
      · obtain ⟨haddress, hport⟩ : b.address = agent.address ∧
            b.port = if db.zoneHasBalancerOnAgent agent.id then env.adguardColocatedDnsPort
              else orDefault s.dnsPort 53 := by
          simpa [hmode, hsame] using hendpoint
        by_cases hipvs : serverIpvs db s = true
        · simp [hipvs, hsame, hport]
        · by_cases hshared : db.zoneHasBalancerOnAgent agent.id = true
          · simp [hipvs, hsame, hshared]
          · simp [hipvs, hshared, hport]

/-! ## The recommended layout -/

def defaultEnvironment : Environment where
  adguardImage := "adguard/adguardhome:latest"
  adguardColocatedDnsPort := 5335
  dnsdistImage := "powerdns/dnsdist-20:2.0.8"
  encryptSecret := some
  decryptSecret := id
  tokenBytes := fun _ i => ⟨i.val, by omega⟩
  hostOfUrl := fun _ => none

/-- A native or container AdGuard on a host, with the defaults of a new row. -/
def managedServer (id : Nat) (name : String) (agentId : Nat) : Server :=
  ⟨id, name, "", none, none, some 1, true, some agentId, 53, false, none, none, false, false, false⟩

/-- A dnsdist balancer on a host, with the defaults of a new row. -/
def dnsdistBalancer (id agentId : Nat) : LoadBalancer :=
  ⟨id, some 1, agentId, true, .docker, "powerdns/dnsdist-20:2.0.8", ["0.0.0.0:53"],
    .leastOutstanding, true, false, 100000, "a.root-servers.net.", 1, 3, 2, .auto,
    ["127.0.0.0/8", "10.0.0.0/8", "172.16.0.0/12", "192.168.0.0/16", "::1/128", "fc00::/7",
      "fe80::/10"], 100, "", .dnsdist, .wlc⟩

/-- Two hosts, each with an AdGuard and a balancer for the zone. -/
def twoHosts : Database where
  zones := [⟨1, none, none, none⟩]
  agents := [⟨1, "10.0.0.11"⟩, ⟨2, "10.0.0.12"⟩]
  servers := [managedServer 1 "dns-a" 1, managedServer 2 "dns-b" 2]
  loadBalancers := [dnsdistBalancer 1 1, dnsdistBalancer 2 2]
  overrides := []
  zoneKeys := by decide
  agentKeys := by decide
  serverKeys := by decide
  loadBalancerKeys := by decide

/-- A balancer reaches the server that shares its host. -/
theorem own_host_reachable :
    Reachable defaultEnvironment twoHosts (dnsdistBalancer 1 1)
      ⟨1, "dns-a", "dns-a-1", "127.0.0.1", 5335, true, 1, 1⟩ 1 (managedServer 1 "dns-a" 1) := by
  refine (reachable_iff defaultEnvironment twoHosts (dnsdistBalancer 1 1) _ ⟨1, "10.0.0.11"⟩
    (managedServer 1 "dns-a" 1) (by decide) rfl (by decide +kernel) (by decide) rfl rfl rfl).mpr ?_
  have hdirect : serverIpvs twoHosts (managedServer 1 "dns-a" 1) = false := by decide
  have hbalanced : twoHosts.zoneHasBalancerOnAgent 1 = true := by decide
  simp only [Agrees, hdirect, hbalanced, if_true, Bool.false_eq_true, if_false]
  exact ⟨rfl, .inl rfl⟩

/-- Every enabled target of every enabled balancer is reachable. -/
def PoolReachable (env : Environment) (db : Database) : Prop :=
  ∀ lb ∈ db.loadBalancers, lb.enabled = true →
    ∀ b ∈ desiredBackends env db lb, b.enabled = true →
      ∀ s ∈ db.servers, s.id = b.serverId →
        ∀ agent ∈ db.agents, s.agentId = some agent.id → Reachable env db lb b agent.id s

/-- With a balancer on every host, each one dials the others' loopback ports. -/
theorem other_host_unreachable : ¬ PoolReachable defaultEnvironment twoHosts := by
  have hpool : ⟨2, "dns-b", "dns-b-2", "10.0.0.12", 5335, true, 1, 1⟩ ∈
      desiredBackends defaultEnvironment twoHosts (dnsdistBalancer 1 1) := by decide +kernel
  intro hreach
  have hother := hreach (dnsdistBalancer 1 1) (by decide) rfl _ hpool rfl
    (managedServer 2 "dns-b" 2) (by decide) rfl ⟨2, "10.0.0.12"⟩ (by decide) rfl
  exact absurd hother.2 (by decide)

end AdguardAdmin
