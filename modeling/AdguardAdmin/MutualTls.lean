import AdguardAdmin.CertChains
import AdguardAdmin.PyAddress
import AdguardAdmin.RunLaws
/-!
# Who is believed over mutual TLS

The control plane has a CA of its own.  It signs one client certificate for the control plane
itself, when the CA is made, and a server certificate for every agent that enrolls or renews.
An agent serves a request if its client shows a certificate of the CA that is for clients and
has the name of the control plane; the control plane believes an agent that shows a certificate
of the CA for the host it wanted to reach.

Everybody else can make keys and sign what they like with them.

* `requests_served_iff` — a request is served exactly if it shows the client certificate, which
  nobody renews, so that none is served once it has run out;
* `agents_believed_iff` — what the control plane believes at a host are exactly certificates that
  it signed for that host, or for an agent at an IP address that is called like the host.
-/

namespace AdguardAdmin.MutualTls

open CertChains PyAddress RunLaws

/-- `x509.GeneralName`. -/
inductive San where
  | ip (a : Address)
  | dns (name : String)
  deriving DecidableEq, Repr

/-- Keys are numbered in the order in which they are made. -/
abbrev Certificate := Cert Nat San

/-! ## Signing -/

def caCommonName : String := "AdGuard Admin Agent CA"
def clientCommonName : String := "adguard-admin"
def caDays : Int := 365 * 20
def clientDays : Int := 365 * 5
def agentDays : Int := 365

def minutes (n : Int) : Int := 60 * n
def days (n : Int) : Int := 24 * 60 * 60 * n

/-- `generate_ca`, with the key that is made for it. -/
def generateCa (now : Int) (key : Nat) : Certificate where
  subject := caCommonName
  issuer := caCommonName
  publicKey := key
  signer := key
  notBefore := now - minutes 5
  notAfter := now + days caDays
  isCA := true
  pathLength := some 0
  certSign := true
  ekus := []
  sans := []

/-- `_issue`. -/
def issue (caCert : Certificate) (caKey publicKey : Nat) (commonName : String) (validDays : Int)
    (eku : Eku) (sans : List San) (now : Int) : Certificate where
  subject := commonName
  issuer := caCert.subject
  publicKey := publicKey
  signer := caKey
  notBefore := now - minutes 5
  notAfter := now + days validDays
  isCA := false
  pathLength := none
  certSign := false
  ekus := [eku]
  sans := sans

/-- `san_for`. -/
def sanFor (address : String) : San :=
  match ipAddress address.toList with
  | some a => .ip a
  | none => .dns address

/-- The certificate of an agent. -/
def agentCert (caCert : Certificate) (caKey publicKey : Nat) (name address : String)
    (now : Int) : Certificate :=
  issue caCert caKey publicKey (String.ofList (name.toList.take 64)) agentDays .serverAuth
    [sanFor address] now

/-- A certificate request, with the key that signed it. -/
structure Csr where
  publicKey : Nat
  signer : Nat
  deriving DecidableEq, Repr

/-- `sign_agent_csr`; a request that cannot be parsed is `none`. -/
def signAgentCsr (caCert : Certificate) (caKey : Nat) (csr : Option Csr) (name address : String)
    (now : Int) : Except String Certificate :=
  match csr with
  | none => .error "invalid CSR"
  | some csr =>
      if csr.signer ≠ csr.publicKey then .error "CSR signature does not verify"
      else .ok (agentCert caCert caKey csr.publicKey name address now)

/-- `issue_client_cert`, with the key that is made for it. -/
def issueClientCert (caCert : Certificate) (caKey key : Nat) (now : Int) : Certificate :=
  issue caCert caKey key clientCommonName clientDays .clientAuth [] now

/-- `AgentCA`. -/
structure AgentCA where
  caCert : Certificate
  caKey : Nat
  clientCert : Certificate
  clientKey : Nat
  deriving DecidableEq, Repr

/-! ## Verifying -/

def controlPlaneCN : String := "adguard-admin"

/-- `CheckClient`. -/
def checkClient : List Certificate → Except String Unit
  | [] => .error "no client certificate"
  | leaf :: _ =>
      if Eku.clientAuth ∉ leaf.ekus then
        .error "client certificate lacks the clientAuth extended key usage"
      else if leaf.subject ≠ controlPlaneCN then
        .error ("client certificate CN " ++ leaf.subject ++ " is not " ++ controlPlaneCN)
      else .ok ()

/-- A request gets past `ServerTLSConfig` and `RequireControlPlane`, at an agent with this CA. -/
def Serves (ca : Certificate) (now : Int) (leaf : Certificate) (sent : List Certificate) : Prop :=
  Trusted [ca] sent now .clientAuth 0 leaf ∧ checkClient (leaf :: sent) = .ok ()

/-- How the TLS library compares the host that is to be reached with what a certificate says. -/
structure HostCheck where
  /-- The host is an IP address. -/
  isAddress : String → Bool
  sameAddress : Address → String → Bool
  sameName : String → String → Bool

/-- The names of a certificate that a host name is compared with: those among its alternative
names, or else the common name. -/
def Cert.hostNames (c : Certificate) : List String :=
  let names := c.sans.filterMap fun san =>
    match san with
    | .dns name => some name
    | .ip _ => none
  if names = [] then [c.subject] else names

/-- `check_hostname`. -/
def HostCheck.matches (check : HostCheck) (c : Certificate) (host : String) : Bool :=
  if check.isAddress host then
    c.sans.any fun san =>
      match san with
      | .ip a => check.sameAddress a host
      | .dns _ => false
  else (Cert.hostNames c).any (check.sameName · host)

/-- A server gets past `client_ssl_context`. -/
def Believes (check : HostCheck) (ca : Certificate) (now : Int) (host : String)
    (leaf : Certificate) (sent : List Certificate) : Prop :=
  Trusted [ca] sent now .serverAuth 0 leaf ∧ check.matches leaf host = true

/-- An agent of this name and address is what is to be found at the host. -/
def HostCheck.Names (check : HostCheck) (name address host : String) : Prop :=
  match ipAddress address.toList with
  | some a =>
      if check.isAddress host then check.sameAddress a host = true
      else check.sameName (String.ofList (name.toList.take 64)) host = true
  | none => check.isAddress host = false ∧ check.sameName address host = true

instance (check : HostCheck) (name address host : String) :
    Decidable (check.Names name address host) := by
  unfold HostCheck.Names
  split
  · split <;> infer_instance
  · infer_instance

/-! ## The world -/

/-- The row of the CA, the certificates there are, and which key is made next. -/
structure World where
  row : Option AgentCA
  certs : List Certificate
  next : Nat

inductive Event where
  /-- `get_pki` or `load_pki`, with the times at which a new CA and its client certificate would
  be made. -/
  | loadPki (t₁ t₂ : Int)
  /-- An enrollment or a renewal signs a request. -/
  | sign (csr : Option Csr) (name address : String) (now : Int)
  /-- Somebody else makes a key. -/
  | generateKey
  /-- Somebody else signs a certificate. -/
  | mint (c : Certificate)

/-- `ensure_ca` on an empty table. -/
def newCA (t₁ t₂ : Int) (key : Nat) : AgentCA where
  caCert := generateCa t₁ key
  caKey := key
  clientCert := issueClientCert (generateCa t₁ key) key (key + 1) t₂
  clientKey := key + 1

namespace World

def start : World := ⟨none, [], 0⟩

/-- A key of somebody else. -/
def Foreign (w : World) (key : Nat) : Prop :=
  key < w.next ∧ ∀ row ∈ w.row, key ≠ row.caKey ∧ key ≠ row.clientKey

instance (w : World) (key : Nat) : Decidable (w.Foreign key) :=
  inferInstanceAs (Decidable (_ ∧ _))

def loadPki (w : World) (t₁ t₂ : Int) : World :=
  match w.row with
  | some _ => w
  | none =>
      let row := newCA t₁ t₂ w.next
      ⟨some row, row.caCert :: row.clientCert :: w.certs, w.next + 2⟩

def sign (w : World) (csr : Option Csr) (name address : String) (now : Int) : World :=
  match w.row with
  | none => w
  | some row =>
      match signAgentCsr row.caCert row.caKey csr name address now with
      | .error _ => w
      | .ok c => { w with certs := c :: w.certs }

def step (w : World) : Event → World
  | .loadPki t₁ t₂ => w.loadPki t₁ t₂
  | .sign csr name address now => w.sign csr name address now
  | .generateKey => { w with next := w.next + 1 }
  | .mint c => if w.Foreign c.signer then { w with certs := c :: w.certs } else w

end World

/-! ## Where certificates come from -/

/-- A request that an enrollment or a renewal signed. -/
def Signed (events : List Event) (row : AgentCA) (name address : String) (now : Int)
    (c : Certificate) : Prop :=
  ∃ csr : Csr, Event.sign (some csr) name address now ∈ events ∧ csr.signer = csr.publicKey ∧
    c = agentCert row.caCert row.caKey csr.publicKey name address now

/-- What was signed stays signed. -/
theorem Signed.mono {events : List Event} {row : AgentCA} {name address : String} {now : Int}
    {c : Certificate} (h : Signed events row name address now c) (e : Event) :
    Signed (events ++ [e]) row name address now c := by
  obtain ⟨csr, hmem, hsigner, hc⟩ := h
  exact ⟨csr, List.mem_append_left _ hmem, hsigner, hc⟩

/-- What the key of the CA has signed. -/
def Origin (events : List Event) (row : AgentCA) (c : Certificate) : Prop :=
  c = row.caCert ∨ c = row.clientCert ∨ ∃ name address now, Signed events row name address now c

/-- A certificate keeps its origin. -/
theorem Origin.mono {events : List Event} {row : AgentCA} {c : Certificate}
    (h : Origin events row c) (e : Event) : Origin (events ++ [e]) row c := by
  rcases h with h | h | ⟨name, address, now, h⟩
  · exact .inl h
  · exact .inr (.inl h)
  · exact .inr (.inr ⟨name, address, now, h.mono e⟩)

structure Inv (events : List Event) (w : World) : Prop where
  signers : ∀ c ∈ w.certs, c.signer < w.next
  made : ∀ row ∈ w.row, ∃ t₁ t₂, row = newCA t₁ t₂ row.caKey
  keys : ∀ row ∈ w.row, row.caKey + 1 < w.next
  origin : ∀ row ∈ w.row, ∀ c ∈ w.certs, c.signer = row.caKey → Origin events row c

/-- The invariant holds after an event that changes nothing. -/
theorem Inv.mono {events : List Event} {w : World} (h : Inv events w) (e : Event) :
    Inv (events ++ [e]) w :=
  ⟨h.signers, h.made, h.keys, fun row hrow c hc hsigner => (h.origin row hrow c hc hsigner).mono e⟩

variable {events : List Event} {w : World}

/-- Loading the CA keeps the invariant. -/
theorem Inv.loadPki (h : Inv events w) (t₁ t₂ : Int) : Inv events (w.loadPki t₁ t₂) := by
  unfold World.loadPki
  split
  · exact h
  · next hnone =>
      have hrow : ∀ row ∈ some (newCA t₁ t₂ w.next), row = newCA t₁ t₂ w.next :=
        fun row hrow => (Option.some.inj hrow).symm
      refine ⟨?_, ?_, ?_, ?_⟩
      · intro c hc
        rcases List.mem_cons.mp hc with rfl | hc
        · exact Nat.lt_add_of_pos_right (by decide)
        · rcases List.mem_cons.mp hc with rfl | hc
          · exact Nat.lt_add_of_pos_right (by decide)
          · exact Nat.lt_add_right 2 (h.signers c hc)
      · exact fun row hr => hrow row hr ▸ ⟨t₁, t₂, rfl⟩
      · intro row hr
        obtain rfl := hrow row hr
        exact Nat.lt_succ_self (w.next + 1)
      · intro row hr c hc hsigner
        obtain rfl := hrow row hr
        rcases List.mem_cons.mp hc with rfl | hc
        · exact .inl rfl
        · rcases List.mem_cons.mp hc with rfl | hc
          · exact .inr (.inl rfl)
          · exact absurd hsigner (h.signers c hc).ne

/-- Signing a certificate keeps the invariant. -/
theorem Inv.sign (h : Inv events w) (csr : Option Csr) (name address : String) (now : Int) :
    Inv (events ++ [.sign csr name address now]) (w.sign csr name address now) := by
  unfold World.sign
  split
  · exact h.mono _
  · next row hrow =>
      split
      · exact h.mono _
      · next c hc =>
          obtain ⟨csr', rfl, hsigner, rfl⟩ : ∃ csr', csr = some csr' ∧
              csr'.signer = csr'.publicKey ∧
                c = agentCert row.caCert row.caKey csr'.publicKey name address now := by
            unfold signAgentCsr at hc
            split at hc
            · cases hc
            · next csr' =>
                split at hc
                · cases hc
                · next hvalid => exact ⟨csr', rfl, not_not.mp hvalid, (Except.ok.inj hc).symm⟩
          refine ⟨?_, h.made, h.keys, ?_⟩
          · intro d hd
            rcases List.mem_cons.mp hd with rfl | hd
            · exact (Nat.lt_succ_self _).trans (h.keys row hrow)
            · exact h.signers d hd
          · intro row' hrow' d hd hsigner'
            obtain rfl : row = row' := Option.some.inj (hrow.symm.trans hrow')
            rcases List.mem_cons.mp hd with rfl | hd
            · exact .inr (.inr ⟨name, address, now, csr', List.mem_append_right _
                List.mem_cons_self, hsigner, rfl⟩)
            · exact (h.origin row hrow d hd hsigner').mono _

/-- A certificate that a foreign key signs keeps the invariant. -/
theorem Inv.mint (h : Inv events w) (c : Certificate) (hforeign : w.Foreign c.signer) :
    Inv events { w with certs := c :: w.certs } := by
  refine ⟨?_, h.made, h.keys, ?_⟩
  · intro d hd
    rcases List.mem_cons.mp hd with rfl | hd
    · exact hforeign.1
    · exact h.signers d hd
  · intro row hrow d hd hsigner
    rcases List.mem_cons.mp hd with rfl | hd
    · exact absurd hsigner (hforeign.2 row hrow).1
    · exact h.origin row hrow d hd hsigner

/-- The invariant holds after every run. -/
theorem inv_after (events : List Event) : Inv events (after World.step World.start events) := by
  induction events using List.reverseRecOn with
  | nil =>
      exact ⟨fun c hc => absurd hc List.not_mem_nil,
        fun row hrow => (Option.some_ne_none _ hrow.symm).elim,
        fun row hrow => (Option.some_ne_none _ hrow.symm).elim,
        fun row hrow => (Option.some_ne_none _ hrow.symm).elim⟩
  | append_singleton events e ih =>
      rw [after_append]
      cases e with
      | loadPki t₁ t₂ => exact (ih.loadPki t₁ t₂).mono _
      | sign csr name address now => exact ih.sign csr name address now
      | generateKey =>
          exact ⟨fun c hc => Nat.lt_succ_of_lt (ih.signers c hc), ih.made,
            fun row hrow => Nat.lt_succ_of_lt (ih.keys row hrow),
            fun row hrow c hc hsigner => (ih.origin row hrow c hc hsigner).mono _⟩
      | mint c =>
          rw [after_cons, after_nil, World.step]
          split
          · next hforeign => exact (ih.mint c hforeign).mono _
          · exact ih.mono _

/-! ## Who is believed -/

section Believed

variable {row : AgentCA} {leaf : Certificate} {sent : List Certificate} {now : Int} {usage : Eku}

/-- Whatever is sent along, only what the CA itself has signed is trusted. -/
theorem origin_of_trusted (hinv : Inv events w) (hrow : w.row = some row)
    (hmem : ∀ c ∈ leaf :: sent, c ∈ w.certs) (h : Trusted [row.caCert] sent now usage 0 leaf) :
    Origin events row leaf ∧ row.caCert.ValidAt now := by
  obtain ⟨t₁, t₂, hmade⟩ := hinv.made row hrow
  have hkey : row.caCert.publicKey = row.caKey := by rw [hmade]; rfl
  have hleaf : ∀ root ∈ [row.caCert], ∀ c ∈ sent, c.signer = root.publicKey → c.isCA = true →
      c ∈ [row.caCert] := by
    intro root hroot c hc hsigner hca
    rw [List.mem_singleton.mp hroot, hkey] at hsigner
    rcases hinv.origin row hrow c (hmem c (List.mem_cons_of_mem _ hc)) hsigner with
      rfl | rfl | ⟨name, address, t, csr, -, -, rfl⟩
    · exact List.mem_singleton_self _
    · rw [hmade] at hca
      exact (Bool.false_ne_true hca).elim
    · exact (Bool.false_ne_true hca).elim
  rcases trusted_direct hleaf h with hroot | ⟨root, hroot, hissued, hvalid⟩
  · have hself : leaf = row.caCert := List.mem_singleton.mp hroot
    exact ⟨.inl hself, hself ▸ h.valid⟩
  · obtain rfl := List.mem_singleton.mp hroot
    exact ⟨hinv.origin row hrow leaf (hmem leaf List.mem_cons_self) (hissued.signed.trans hkey),
      hvalid⟩

/-- A certificate that the CA has signed for a purpose is trusted while it and the CA last. -/
theorem trusted_of_issue {t₁ t₂ : Int} {key publicKey : Nat} {name : String} {validDays : Int}
    {sans : List San} (hvalid : (issue (generateCa t₁ key) key publicKey name validDays usage sans
      t₂).ValidAt now) (hca : (generateCa t₁ key).ValidAt now) :
    Trusted [generateCa t₁ key] sent now usage 0
      (issue (generateCa t₁ key) key publicKey name validDays usage sans t₂) := by
  refine .step hvalid (.inr (.inr List.mem_cons_self)) (.inl List.mem_cons_self) ?_ ?_ ?_
  · exact ⟨rfl, rfl, rfl, rfl⟩
  · exact fun m _ => Nat.zero_le m
  · exact .root List.mem_cons_self hca (.inl rfl)

/-- **Whose requests are served.**  Whatever others sign and send along, an agent serves a request
exactly if it shows the client certificate of the control plane, and only until that and the CA
have run out. -/
theorem requests_served_iff (events : List Event)
    (hrow : (after World.step World.start events).row = some row) :
    ∃ t₁ t₂, row = newCA t₁ t₂ row.caKey ∧ ∀ (leaf : Certificate) (sent : List Certificate)
      (now : Int), (∀ c ∈ leaf :: sent, c ∈ (after World.step World.start events).certs) →
        (Serves row.caCert now leaf sent ↔
          leaf = row.clientCert ∧
            (t₂ - minutes 5 ≤ now ∧ now ≤ t₂ + days clientDays) ∧
              t₁ - minutes 5 ≤ now ∧ now ≤ t₁ + days caDays) := by
  have hinv := inv_after events
  obtain ⟨t₁, t₂, hmade⟩ := hinv.made row hrow
  refine ⟨t₁, t₂, hmade, fun leaf sent now hmem => ⟨?_, ?_⟩⟩
  · rintro ⟨htrusted, hcheck⟩
    obtain ⟨horigin, hca⟩ := origin_of_trusted hinv hrow hmem htrusted
    have hclient : Eku.clientAuth ∈ leaf.ekus := by
      by_contra hnot
      rw [checkClient, if_pos hnot] at hcheck
      cases hcheck
    rcases horigin with rfl | rfl | ⟨name, address, t, csr, -, -, rfl⟩
    · rw [hmade] at hclient
      exact absurd hclient List.not_mem_nil
    · have hvalid := htrusted.valid
      rw [hmade] at hvalid hca
      exact ⟨rfl, hvalid, hca⟩
    · exact absurd (List.mem_singleton.mp hclient) (by decide)
  · rintro ⟨rfl, hvalid, hca⟩
    rw [hmade]
    refine ⟨trusted_of_issue hvalid hca, ?_⟩
    have hclient : Eku.clientAuth ∈ (newCA t₁ t₂ row.caKey).clientCert.ekus :=
      List.mem_singleton_self _
    rw [checkClient, if_neg (not_not.mpr hclient)]
    exact if_neg (not_not.mpr rfl)

/-- The certificate of an agent is for the hosts that its name and address stand for. -/
theorem matches_agentCert (check : HostCheck) (caCert : Certificate) (caKey publicKey : Nat)
    (name address : String) (t : Int) (host : String) :
    check.matches (agentCert caCert caKey publicKey name address t) host = true ↔
      check.Names name address host := by
  unfold HostCheck.matches HostCheck.Names Cert.hostNames agentCert issue sanFor
  cases hparsed : ipAddress address.toList with
  | some a =>
      cases hhost : check.isAddress host <;> simp
  | none =>
      cases hhost : check.isAddress host <;> simp

/-- A certificate without alternative names is for hosts that go by its common name. -/
theorem matches_of_no_sans (check : HostCheck) {c : Certificate} (hsans : c.sans = [])
    (host : String) :
    check.matches c host = true ↔
      check.isAddress host = false ∧ check.sameName c.subject host = true := by
  unfold HostCheck.matches Cert.hostNames
  rw [hsans]
  cases hhost : check.isAddress host <;> simp

/-- **Which agents are believed.**  What is believed at a host are the certificates that were
signed for a request of an enrollment or a renewal that names the host, for a year and while the
CA lasts, and that of the CA itself at a host that goes by its name; the client certificate never
is. -/
theorem agents_believed_iff (check : HostCheck) (events : List Event)
    (hrow : (after World.step World.start events).row = some row) (leaf : Certificate)
    (sent : List Certificate) (now : Int) (host : String)
    (hmem : ∀ c ∈ leaf :: sent, c ∈ (after World.step World.start events).certs) :
    Believes check row.caCert now host leaf sent ↔
      row.caCert.ValidAt now ∧
        ((leaf = row.caCert ∧ check.isAddress host = false ∧
            check.sameName caCommonName host = true) ∨
          ∃ name address t, Signed events row name address t leaf ∧
            check.Names name address host ∧ t - minutes 5 ≤ now ∧ now ≤ t + days agentDays) := by
  have hinv := inv_after events
  obtain ⟨t₁, t₂, hmade⟩ := hinv.made row hrow
  constructor
  · rintro ⟨htrusted, hhost⟩
    obtain ⟨horigin, hca⟩ := origin_of_trusted hinv hrow hmem htrusted
    refine ⟨hca, ?_⟩
    rcases horigin with rfl | rfl | ⟨name, address, t, csr, hevent, hsigner, rfl⟩
    · rw [hmade] at hhost
      exact .inl ⟨rfl, (matches_of_no_sans check rfl host).mp hhost⟩
    · -- the client certificate is for clients only
      have hallows := htrusted.allows
      rw [hmade] at hallows
      rcases hallows with hempty | hany | hserver
      · cases hempty
      · exact absurd (List.mem_singleton.mp hany) (by decide)
      · exact absurd (List.mem_singleton.mp hserver) (by decide)
    · have hnames := (matches_agentCert check _ _ _ name address t host).mp hhost
      exact .inr ⟨name, address, t, ⟨csr, hevent, hsigner, rfl⟩, hnames, htrusted.valid⟩
  · rintro ⟨hca, ⟨rfl, hname⟩ | ⟨name, address, t, ⟨csr, -, -, rfl⟩, hnames, hvalid⟩⟩
    · refine ⟨.root List.mem_cons_self hca (.inl ?_), ?_⟩
      · rw [hmade]
        rfl
      · rw [hmade]
        exact (matches_of_no_sans check rfl host).mpr hname
    · rw [hmade] at hca ⊢
      exact ⟨trusted_of_issue hvalid hca,
        (matches_agentCert check _ _ _ name address t host).mpr hnames⟩

end Believed

/-! A CA, its client certificate, and an agent that is called as the control plane. -/

def oneAgent : List Event :=
  [.loadPki 0 0, .generateKey, .sign (some ⟨2, 2⟩) "adguard-admin" "10.0.0.5" 60]

def oneAgentCert : Certificate := agentCert (generateCa 0 0) 0 2 "adguard-admin" "10.0.0.5" 60

theorem after_oneAgent : after World.step World.start oneAgent =
    ⟨some (newCA 0 0 0), [oneAgentCert, (newCA 0 0 0).caCert, (newCA 0 0 0).clientCert], 3⟩ := rfl

/-- The certificate of the agent is among the certificates. -/
theorem oneAgentCert_mem :
    ∀ c ∈ [oneAgentCert], c ∈ (after World.step World.start oneAgent).certs := by
  intro c hc
  rw [List.mem_singleton.mp hc, after_oneAgent]
  exact List.mem_cons_self

/-- An agent that is called as the control plane does not get served. -/
theorem namesake_not_served : ¬ Serves (newCA 0 0 0).caCert 120 oneAgentCert [] := by
  obtain ⟨t₁, t₂, -, hserves⟩ := @requests_served_iff (newCA 0 0 0) oneAgent rfl
  intro h
  obtain ⟨hclient, -⟩ := (hserves oneAgentCert [] 120 oneAgentCert_mem).mp h
  exact absurd (congrArg Cert.publicKey hclient) (by decide)

/-- Hosts compared by their spelling. -/
def spelled : HostCheck where
  isAddress host := (ipAddress host.toList).isSome
  sameAddress a host := ipAddress host.toList = some a
  sameName name host := name = host

/-- At its address, and at a host that is called like the agent. -/
theorem agent_believed :
    Believes spelled (newCA 0 0 0).caCert 120 "10.0.0.5" oneAgentCert [] ∧
      Believes spelled (newCA 0 0 0).caCert 120 "adguard-admin" oneAgentCert [] ∧
      ¬ Believes spelled (newCA 0 0 0).caCert 120 "10.0.0.6" oneAgentCert [] := by
  have hiff := fun host => @agents_believed_iff (newCA 0 0 0) spelled oneAgent rfl oneAgentCert []
    120 host oneAgentCert_mem
  have hca : (newCA 0 0 0).caCert.ValidAt 120 := ⟨by decide, by decide⟩
  have hsigned : Signed oneAgent (newCA 0 0 0) "adguard-admin" "10.0.0.5" 60 oneAgentCert :=
    ⟨⟨2, 2⟩, by simp [oneAgent], rfl, rfl⟩
  refine ⟨(hiff _).mpr ⟨hca, .inr ⟨_, _, 60, hsigned, by decide +kernel, by decide, by decide⟩⟩,
    (hiff _).mpr ⟨hca, .inr ⟨_, _, 60, hsigned, by decide +kernel, by decide, by decide⟩⟩, ?_⟩
  intro h
  have hhost := h.2
  revert hhost
  decide +kernel

end AdguardAdmin.MutualTls
