import Mathlib
import AdguardAdmin.BalancerPlan
import AdguardAdmin.PoolReachability
import AdguardAdmin.TableIds
/-!
# Who has port 53 on a host

The plan of a host makes its AdGuard step aside for a dnsdist balancer that shares it, unless
the server's zone is balanced by direct routing: then AdGuard has to answer on port 53, and
that rule goes first.  The balancer, whose zone may be another one, does not look at it.

* `one_owner_iff` — when nobody contends for port 53.
-/

namespace AdguardAdmin

open GoText

/-! ## What specs bind -/

structure Endpoint where
  address : String
  port : Int
  deriving DecidableEq, Repr

/-- Addresses that stand for all of a host. -/
def isWildcard (address : String) : Bool := address = "0.0.0.0" || address = "::"

/-- No two sockets of a host can have these. -/
def Endpoint.contends (a b : Endpoint) : Bool :=
  a.port = b.port && (a.address = b.address || isWildcard a.address || isWildcard b.address)

def AdguardSpec.binds (spec : AdguardSpec) : List Endpoint :=
  if spec.enabled then spec.dnsBind.map fun address => ⟨address, spec.dnsPort⟩ else []

def readEndpoint (listen : String) : Option Endpoint := do
  let (host, port) ← splitHostPort listen
  return ⟨host, ← atoi port⟩

/-- What a dnsdist spec binds; a spec that is not enabled binds nothing. -/
def dnsdistBinds (raw : Json Int) : List Endpoint :=
  let listen := do
    let fields ← Json.members raw
    if ← Json.readBool (Json.get fields "enabled") then
      Json.readList Json.readString (Json.get fields "listen")
    else return []
  (listen.toOption.getD []).filterMap readEndpoint

/-! ## What a host is given -/

section Given

variable (env : Environment) (db : Database) (agentId : Nat)

/-- The AdGuard specs of the plan of a host. -/
def GivenAdguard (spec : AdguardSpec) : Prop :=
  ∃ plan, agentPlan env db agentId = some plan ∧ ∃ serverId, (serverId, spec) ∈ plan.adguard

/-- The dnsdist specs of the plans of balancers on a host. -/
def GivenDnsdist (raw : Json Int) : Prop :=
  ∃ lbId plan, lbPlan env db lbId = some plan ∧ plan.agentId = agentId ∧ plan.dnsdist = some raw

end Given

/-- No host is given two specs that both want port 53. -/
def OneOwner (env : Environment) (db : Database) : Prop :=
  ∀ agentId spec raw, GivenAdguard env db agentId spec → GivenDnsdist env db agentId raw →
    ∀ a ∈ spec.binds, ∀ b ∈ dnsdistBinds raw, a.port = 53 → a.contends b = false

/-- Balancers listen where they do unless told otherwise. -/
abbrev DefaultListen (db : Database) : Prop :=
  ∀ lb ∈ db.loadBalancers, lb.listenAddresses = [] ∨ lb.listenAddresses = ["0.0.0.0:53"]

/-- A plan can be made for the balancer: the password of its zone's VIP can be stored. -/
def Plannable (env : Environment) (db : Database) (lb : LoadBalancer) : Prop :=
  ∀ zone, lb.zoneId.bind db.getZone = some zone → zone.vip.getD "" ≠ "" →
    (zoneVrrpAuth env zone).isSome

/-- No enabled dnsdist balancer shares its host with an enabled server of a zone that is
balanced by direct routing, and a server that steps aside does not end up on port 53. -/
def Apart (env : Environment) (db : Database) : Prop :=
  ∀ lb ∈ db.loadBalancers, lb.enabled = true → lb.mode = .dnsdist →
    (db.getAgent lb.agentId).isSome → Plannable env db lb →
      ∀ s ∈ db.servers, s.enabled = true → s.agentId = some lb.agentId →
        serverIpvs db s = false ∧ env.adguardColocatedDnsPort ≠ 53

section Facts

variable {env : Environment} {db : Database}

/-- An agent that is found has that id. -/
theorem id_of_getAgent {id : Nat} {agent : Agent} (h : db.getAgent id = some agent) :
    agent.id = id := by
  simpa using List.find?_some h

/-- The specs of AdGuard that a host is given are those of its servers. -/
theorem givenAdguard_iff {agentId : Nat} {spec : AdguardSpec} :
    GivenAdguard env db agentId spec ↔ (db.getAgent agentId).isSome ∧
      ∃ s ∈ db.servers, s.agentId = some agentId ∧ spec = plannedAdguard env db agentId s := by
  unfold GivenAdguard agentPlan
  cases hagent : db.getAgent agentId with
  | none => simp
  | some agent =>
      obtain rfl := id_of_getAgent hagent
      simp only [Option.isSome_some, true_and, Option.some.injEq, exists_eq_left', List.mem_map,
        List.mem_filter, decide_eq_true_eq, Prod.mk.injEq]
      constructor
      · rintro ⟨_, s, ⟨hs, hhost⟩, -, rfl⟩
        exact ⟨s, hs, hhost, rfl⟩
      · rintro ⟨s, hs, hhost, rfl⟩
        exact ⟨s.id, s, ⟨hs, hhost⟩, rfl, rfl⟩

/-- A balancer has a plan when keepalived has one. -/
theorem plannable_iff {lb : LoadBalancer} {agent : Agent} :
    Plannable env db lb ↔ (plannedKeepalived env db lb agent).isSome := by
  unfold Plannable plannedKeepalived
  cases lb.zoneId.bind db.getZone with
  | none => simp
  | some zone =>
      by_cases hvip : zone.vip.getD "" = ""
      · simp [hvip]
      · simp [hvip, ensureZoneVrrp]

/-- The specs of dnsdist that a host is given are those of its balancers. -/
theorem givenDnsdist_iff {agentId : Nat} {raw : Json Int} :
    GivenDnsdist env db agentId raw ↔ (db.getAgent agentId).isSome ∧
      ∃ lb ∈ db.loadBalancers, lb.agentId = agentId ∧ lb.mode = .dnsdist ∧
        Plannable env db lb ∧ raw = dnsdistSpec env lb (desiredBackends env db lb) := by
  constructor
  · rintro ⟨lbId, plan, hplan, rfl, hraw⟩
    obtain ⟨lb, agent, hlb, hagent, hhost, -, hdnsdist, hkeepalived⟩ := exists_of_lbPlan hplan
    have hid := id_of_getAgent hagent
    rw [hraw] at hdnsdist
    split at hdnsdist
    · cases hdnsdist
    · next hmode =>
        refine ⟨by rw [hhost, hid, hagent]; rfl, lb, List.mem_of_find?_eq_some hlb, ?_, ?_, ?_,
          Option.some.inj hdnsdist⟩
        · rw [hhost, hid]
        · cases hcase : lb.mode with
          | dnsdist => rfl
          | ipvs => exact absurd hcase hmode
        · rw [plannable_iff, hkeepalived]
          rfl
  · rintro ⟨hsome, lb, hlb, rfl, hmode, hplannable, rfl⟩
    obtain ⟨agent, hagent⟩ := Option.isSome_iff_exists.mp hsome
    have hplanned : (plannedKeepalived env db lb agent).isSome := plannable_iff.mp hplannable
    obtain ⟨keepalived, hkeepalived⟩ := Option.isSome_iff_exists.mp hplanned
    have hget : db.getLoadBalancer lb.id = some lb := TableIds.find?_key db.loadBalancerKeys hlb
    have hsome : (lbPlan env db lb.id).isSome := by
      unfold lbPlan
      simp [hget, hagent, hkeepalived]
    obtain ⟨plan, hplan⟩ := Option.isSome_iff_exists.mp hsome
    obtain ⟨lb', agent', hlb', hagent', hhost, -, hdnsdist, -⟩ := exists_of_lbPlan hplan
    obtain rfl := Option.some.inj (hget.symm.trans hlb')
    refine ⟨lb.id, plan, hplan, hhost.trans (id_of_getAgent hagent'), ?_⟩
    rw [hdnsdist, if_neg (by simp [hmode])]

/-- A balancer that listens where it does by default binds port 53 on all addresses, if it is
enabled. -/
theorem binds_dnsdistSpec {lb : LoadBalancer} {backends : List BackendTarget}
    (hlisten : lb.listenAddresses = [] ∨ lb.listenAddresses = ["0.0.0.0:53"]) :
    dnsdistBinds (dnsdistSpec env lb backends) = if lb.enabled then [⟨"0.0.0.0", 53⟩] else [] := by
  have hdefault : (if lb.listenAddresses = [] then ["0.0.0.0:53"] else lb.listenAddresses) =
      ["0.0.0.0:53"] := by
    rcases hlisten with hempty | hset
    · rw [if_pos hempty]
    · rw [hset]
      rfl
  have hread : ["0.0.0.0:53"].filterMap readEndpoint = [⟨"0.0.0.0", 53⟩] := by decide +kernel
  unfold dnsdistSpec
  rw [hdefault]
  cases lb.enabled with
  | false => rfl
  | true => exact hread

/-- An address of the host contends with the balancer's on port 53, whichever it is. -/
theorem contends_iff {agentId : Nat} {s : Server} :
    (∀ a ∈ (plannedAdguard env db agentId s).binds, a.port = 53 →
        a.contends ⟨"0.0.0.0", 53⟩ = false) ↔
      s.enabled = false ∨ (plannedAdguard env db agentId s).dnsPort ≠ 53 := by
  have henabled : (plannedAdguard env db agentId s).enabled = s.enabled := rfl
  have hbind : (plannedAdguard env db agentId s).dnsBind ≠ [] := by
    unfold plannedAdguard adguardSpec
    dsimp only
    repeat' split
    all_goals simp
  unfold AdguardSpec.binds
  rw [henabled]
  cases s.enabled with
  | false => simp
  | true =>
      obtain ⟨address, haddress⟩ := List.exists_mem_of_ne_nil _ hbind
      simp only [if_true, List.forall_mem_map, Bool.true_eq_false, false_or]
      constructor
      · intro h hport
        have hnot := h address haddress hport
        simp [Endpoint.contends, isWildcard, hport] at hnot
      · intro hport _ _ heq
        exact absurd heq hport

/-- **Who has port 53.**  With balancers that listen at the default address, no host is given
a dnsdist spec and an AdGuard spec that both bind port 53 exactly where dnsdist balancers are
kept apart from the servers of zones that are balanced by direct routing. -/
theorem one_owner_iff (hlisten : DefaultListen db) : OneOwner env db ↔ Apart env db := by
  constructor
  · intro h lb hlb henabled hmode hagent hplannable s hs hserver hhost
    have hspec : GivenAdguard env db lb.agentId (plannedAdguard env db lb.agentId s) :=
      givenAdguard_iff.mpr ⟨hagent, s, hs, hhost, rfl⟩
    have hraw : GivenDnsdist env db lb.agentId (dnsdistSpec env lb (desiredBackends env db lb)) :=
      givenDnsdist_iff.mpr ⟨hagent, lb, hlb, rfl, hmode, hplannable, rfl⟩
    have hapart := h _ _ _ hspec hraw
    rw [binds_dnsdistSpec (hlisten lb hlb), henabled, if_pos rfl] at hapart
    simp only [List.mem_singleton, forall_eq] at hapart
    have hport := (contends_iff.mp hapart).resolve_left (by simp [hserver])
    have hcolocated : db.zoneHasBalancerOnAgent lb.agentId = true :=
      db.zoneHasBalancerOnAgent_iff.mpr ⟨lb, hlb, rfl, henabled, hmode⟩
    unfold plannedAdguard adguardSpec at hport
    cases hipvs : serverIpvs db s with
    | true => simp [hipvs] at hport
    | false => exact ⟨rfl, by simpa [hipvs, hcolocated] using hport⟩
  · intro h agentId spec raw hspec hraw a ha b hb hport
    obtain ⟨hagent, s, hs, hhost, rfl⟩ := givenAdguard_iff.mp hspec
    obtain ⟨-, lb, hlb, rfl, hmode, hplannable, rfl⟩ := givenDnsdist_iff.mp hraw
    rw [binds_dnsdistSpec (hlisten lb hlb)] at hb
    cases henabled : lb.enabled with
    | false => simp [henabled] at hb
    | true =>
        obtain rfl : b = ⟨"0.0.0.0", 53⟩ := by simpa [henabled] using hb
        refine contends_iff.mpr ?_ a ha hport
        cases hserver : s.enabled with
        | false => exact .inl rfl
        | true =>
            right
            obtain ⟨hipvs, hcolocated⟩ := h lb hlb henabled hmode hagent hplannable s hs hserver hhost
            have hshared : db.zoneHasBalancerOnAgent lb.agentId = true :=
              db.zoneHasBalancerOnAgent_iff.mpr ⟨lb, hlb, rfl, henabled, hmode⟩
            unfold plannedAdguard adguardSpec
            simpa [hipvs, hshared] using hcolocated

end Facts

/-- On two hosts with a server and a dnsdist balancer each, every port has one owner. -/
theorem two_hosts_one_owner : OneOwner defaultEnvironment twoHosts := by
  have hdirect : ∀ s ∈ twoHosts.servers, serverIpvs twoHosts s = false := by decide
  refine (one_owner_iff (by decide)).mpr ?_
  intro lb _ _ _ _ _ s hs _ _
  exact ⟨hdirect s hs, by decide⟩

/-! ### A host between two zones -/

/-- Zone 2 is balanced by direct routing on host 2, and has a server on host 1, where the
dnsdist balancer of zone 1 is. -/
def twoModes : Database where
  zones := [⟨1, none, none, none⟩, ⟨2, some "10.0.0.53/24", some 52, some "AAAAAAAA"⟩]
  agents := [⟨1, "10.0.0.11"⟩, ⟨2, "10.0.0.12"⟩]
  servers := [{ managedServer 1 "dns-a" 1 with zoneId := some 2 }]
  loadBalancers :=
    [dnsdistBalancer 1 1, { dnsdistBalancer 2 2 with zoneId := some 2, mode := .ipvs }]
  overrides := []
  zoneKeys := by decide
  agentKeys := twoHosts.agentKeys
  serverKeys := by decide
  loadBalancerKeys := by decide

/-- A dnsdist balancer and a server of another zone are both given port 53 of host 1 on all
addresses. -/
theorem port_53_given_twice : DefaultListen twoModes ∧ ¬ OneOwner defaultEnvironment twoModes := by
  refine ⟨by decide, fun h => ?_⟩
  have hspec : GivenAdguard defaultEnvironment twoModes 1
      (plannedAdguard defaultEnvironment twoModes 1
        { managedServer 1 "dns-a" 1 with zoneId := some 2 }) :=
    givenAdguard_iff.mpr ⟨rfl, _, List.mem_singleton_self _, rfl, rfl⟩
  have hraw : GivenDnsdist defaultEnvironment twoModes 1
      (dnsdistSpec defaultEnvironment (dnsdistBalancer 1 1)
        (desiredBackends defaultEnvironment twoModes (dnsdistBalancer 1 1))) :=
    ⟨1, _, rfl, rfl, rfl⟩
  have hnot := h 1 _ _ hspec hraw ⟨"0.0.0.0", 53⟩ (by decide +kernel) ⟨"0.0.0.0", 53⟩
    (by decide +kernel) rfl
  exact absurd hnot (by decide)

end AdguardAdmin
