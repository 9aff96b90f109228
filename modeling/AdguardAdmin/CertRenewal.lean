import AdguardAdmin.RunLaws
/-!
# Renewal of the agent's certificate

The control plane asks for a request signed by a new key and later brings the
certificate.  The agent keeps the new key in memory between the two, one key for all
requests.  An install writes the key file first and the certificate file second; the
agent starts from what the two files hold.

* `renewal_safe_iff` — on exactly which runs the files match in every state, and no
  install throws the key of a later renewal away;
* `serial_installs_match` — installs that follow each other, and of which none stops
  between its two files, leave matching files behind.
-/

namespace AdguardAdmin.CertRenewal

open RunLaws

/-! ## Keys and certificates -/

/-- A parsed certificate, as far as it is looked at. -/
structure Certificate (Pub : Type) where
  publicKey : Option Pub
  notAfter : String

/-- What the agent takes from the crypto packages of the standard library. -/
structure Crypto (Key Pub : Type) where
  publicKey : Key → Pub
  csr : Key → Except String String
  encodeKey : Key → Except String String
  parseCert : String → Except String (Certificate Pub)
  /-- The public key of the leaf that `tls.X509KeyPair` finds. -/
  leafKey : String → Option Pub
  /-- The private key that `tls.X509KeyPair` finds. -/
  privateKey : String → Option Key
  decode_encode : ∀ key pem, encodeKey key = .ok pem → privateKey pem = some key

variable {Key Pub : Type} [DecidableEq Pub]

/-- `tls.X509KeyPair` accepts a certificate and a private key when they belong together. -/
def Crypto.x509KeyPair (crypto : Crypto Key Pub) (certPEM keyPEM : String) : Bool :=
  match crypto.leafKey certPEM, crypto.privateKey keyPEM with
  | some leaf, some key => crypto.publicKey key = leaf
  | _, _ => false

/-! ## Requests -/

structure Failure where
  status : Nat
  message : String
  deriving DecidableEq, Repr

structure CertBody where
  certPEM : String
  caPEM : String
  deriving DecidableEq, Repr

/-- A certificate that has passed the checks, with the key it is for and the renewal the
key is from. -/
structure Admitted (crypto : Crypto Key Pub) where
  body : CertBody
  key : Key
  renewal : Nat
  keyPEM : String
  notAfter : String
  encoded : crypto.encodeKey key = .ok keyPEM
  loaded : crypto.x509KeyPair body.certPEM keyPEM = true

/-- The checks of an install, up to `Holder.Load`. -/
def certChecks (crypto : Crypto Key Pub) (body : CertBody) (key : Key) (renewal : Nat) :
    Except Failure (Admitted crypto) :=
  match crypto.parseCert body.certPEM with
  | .error e => .error ⟨400, e⟩
  | .ok cert =>
      if cert.publicKey ≠ some (crypto.publicKey key) then
        .error ⟨400, "certificate does not match the pending key"⟩
      else
        match hencode : crypto.encodeKey key with
        | .error e => .error ⟨500, e⟩
        | .ok keyPEM =>
            if hload : crypto.x509KeyPair body.certPEM keyPEM = true then
              .ok ⟨body, key, renewal, keyPEM, cert.notAfter, hencode, hload⟩
            else .error ⟨400, "tls: private key does not match public key"⟩

/-- A `POST` on its way. -/
inductive Renewal (Key : Type) where
  | generating
  | storing (key : Key) (csr : String)
  | done (reply : Except Failure String)

/-- A `PUT` on its way: what it does next. -/
inductive Install (crypto : Crypto Key Pub) where
  | reading (body : CertBody)
  | loading (body : CertBody) (key : Key) (renewal : Nat)
  | writingKey (a : Admitted crypto)
  | writingCert (a : Admitted crypto)
  | writingCA (a : Admitted crypto)
  | clearing (a : Admitted crypto)
  | done (reply : Except Failure String)

/-! ## The agent -/

structure Disk where
  keyFile : String
  certFile : String
  caFile : String
  deriving DecidableEq, Repr

/-- The agent, with the live pair when it is running.  Renewals are numbered in the order
in which they start; `discarded` remembers that an install threw a later key away. -/
structure Agent (crypto : Crypto Key Pub) where
  disk : Disk
  holder : Option (String × String)
  pending : Option (Key × Nat)
  renewals : List (Renewal Key)
  installs : List (Install crypto)
  discarded : Bool

inductive Event (Key : Type) where
  | renew
  | generated (j : Nat) (key : Option Key)
  | store (j : Nat)
  | install (body : Except String CertBody)
  /-- The next operation of install `k`; a file that it writes may fail. -/
  | advance (k : Nat) (err : Option String)
  /-- A crash; the service manager starts the agent again. -/
  | restart

variable {crypto : Crypto Key Pub}

/-- The two files load, so the agent can start. -/
def Disk.Matches (crypto : Crypto Key Pub) (disk : Disk) : Prop :=
  crypto.x509KeyPair disk.certFile disk.keyFile = true

instance (disk : Disk) : Decidable (disk.Matches crypto) :=
  inferInstanceAs (Decidable (_ = true))

namespace Agent

def setInstall (s : Agent crypto) (k : Nat) (i : Install crypto) : Agent crypto :=
  { s with installs := s.installs.set k i }

def setRenewal (s : Agent crypto) (j : Nat) (r : Renewal Key) : Agent crypto :=
  { s with renewals := s.renewals.set j r }

/-- `serve` from what is on disk. -/
def started (crypto : Crypto Key Pub) (disk : Disk) (discarded : Bool) : Agent crypto where
  disk := disk
  holder := if disk.Matches crypto then some (disk.certFile, disk.keyFile) else none
  pending := none
  renewals := []
  installs := []
  discarded := discarded

/-- The next operation of an install. -/
def advance (s : Agent crypto) (k : Nat) (err : Option String) : Install crypto → Agent crypto
  | .reading body =>
      match s.pending with
      | none => s.setInstall k (.done (.error
          ⟨409, "no certificate renewal is pending; call POST /v1/cert/renew first"⟩))
      | some (key, renewal) => s.setInstall k (.loading body key renewal)
  | .loading body key renewal =>
      match certChecks crypto body key renewal with
      | .error e => s.setInstall k (.done (.error e))
      | .ok a => { s with holder := some (a.body.certPEM, a.keyPEM) }.setInstall k (.writingKey a)
  | .writingKey a =>
      match err with
      | some e => s.setInstall k (.done (.error ⟨500, e⟩))
      | none => { s with disk := { s.disk with keyFile := a.keyPEM } }.setInstall k (.writingCert a)
  | .writingCert a =>
      match err with
      | some e => s.setInstall k (.done (.error ⟨500, e⟩))
      | none =>
          { s with disk := { s.disk with certFile := a.body.certPEM } }.setInstall k (.writingCA a)
  | .writingCA a =>
      if a.body.caPEM = "" ∨ err.isSome then s.setInstall k (.clearing a)
      else { s with disk := { s.disk with caFile := a.body.caPEM } }.setInstall k (.clearing a)
  | .clearing a =>
      { s with
        pending := none
        discarded := s.discarded || s.pending.any fun (p : Key × Nat) => a.renewal < p.2 }.setInstall k
          (.done (.ok a.notAfter))
  | .done _ => s

def step (s : Agent crypto) (e : Event Key) : Agent crypto :=
  match e with
  | .renew =>
      if s.holder.isSome then { s with renewals := s.renewals ++ [.generating] } else s
  | .generated j key =>
      match s.renewals[j]? with
      | some .generating =>
          match key with
          | none => s.setRenewal j (.done (.error ⟨500, "no entropy"⟩))
          | some key =>
              match crypto.csr key with
              | .error e => s.setRenewal j (.done (.error ⟨500, e⟩))
              | .ok csr => s.setRenewal j (.storing key csr)
      | _ => s
  | .store j =>
      match s.renewals[j]? with
      | some (.storing key csr) =>
          { s with pending := some (key, j) }.setRenewal j (.done (.ok csr))
      | _ => s
  | .install body =>
      if s.holder.isSome then
        match body with
        | .error e => { s with installs := s.installs ++ [.done (.error ⟨400, e⟩)] }
        | .ok body => { s with installs := s.installs ++ [.reading body] }
      else s
  | .advance k err =>
      match s.installs[k]? with
      | some i => s.advance k err i
      | none => s
  | .restart => started crypto s.disk s.discarded

end Agent

/-! ## What is promised -/

/-- The files match, and no install threw away the key of a renewal that started after
the one it completed. -/
structure Agent.Safe (s : Agent crypto) : Prop where
  files : s.disk.Matches crypto
  kept : s.discarded = false

/-- What an operation of an install must find.  Before the key is written, the
certificate on disk is already one for it; before the certificate is written, the key on
disk is the one it is for; and when the pending key is given up, no later renewal has
stored one. -/
def Harmless (s : Agent crypto) : Event Key → Prop
  | .advance k none =>
      match s.installs[k]? with
      | some (.writingKey a) => crypto.leafKey s.disk.certFile = some (crypto.publicKey a.key)
      | some (.writingCert a) =>
          (crypto.privateKey s.disk.keyFile).map crypto.publicKey = some (crypto.publicKey a.key)
      | some (.clearing a) => ∀ key j, s.pending = some (key, j) → j ≤ a.renewal
      | _ => True
  | .advance k (some _) =>
      match s.installs[k]? with
      | some (.clearing a) => ∀ key j, s.pending = some (key, j) → j ≤ a.renewal
      | _ => True
  | _ => True

/-! ## One operation -/

/-- A certificate and a key are a pair when the key is the certificate's. -/
theorem x509KeyPair_iff {certPEM keyPEM : String} :
    crypto.x509KeyPair certPEM keyPEM = true ↔
      ∃ key, crypto.privateKey keyPEM = some key ∧
        crypto.leafKey certPEM = some (crypto.publicKey key) := by
  unfold Crypto.x509KeyPair
  split
  · rename_i leaf key hleaf hkey
    rw [hleaf, hkey, decide_eq_true_iff]
    constructor
    · intro heq
      exact ⟨key, rfl, congrArg some heq.symm⟩
    · intro h
      obtain ⟨key', hkey', hpub⟩ := h
      cases hkey'
      exact (Option.some.inj hpub).symm
  · rename_i hnone
    constructor
    · intro h
      cases h
    · intro h
      obtain ⟨key, hkey, hleaf⟩ := h
      exact (hnone _ _ hleaf hkey).elim

/-- The key of an install can be read back from the text it writes. -/
theorem Admitted.privateKey (a : Admitted crypto) : crypto.privateKey a.keyPEM = some a.key :=
  crypto.decode_encode a.key a.keyPEM a.encoded

/-- An admitted body is for the admitted key. -/
theorem Admitted.leafKey (a : Admitted crypto) :
    crypto.leafKey a.body.certPEM = some (crypto.publicKey a.key) := by
  obtain ⟨key, hkey, hleaf⟩ := x509KeyPair_iff.mp a.loaded
  rw [a.privateKey] at hkey
  cases hkey
  exact hleaf

/-- Writing the key keeps the files matching when the old certificate is for the new
key. -/
theorem matches_writingKey (disk : Disk) (a : Admitted crypto) :
    { disk with keyFile := a.keyPEM }.Matches crypto ↔
      crypto.leafKey disk.certFile = some (crypto.publicKey a.key) := by
  unfold Disk.Matches
  rw [x509KeyPair_iff, a.privateKey]
  simp

/-- Writing the certificate makes the files match when the key on disk is the one it is
for. -/
theorem matches_writingCert (disk : Disk) (a : Admitted crypto) :
    { disk with certFile := a.body.certPEM }.Matches crypto ↔
      (crypto.privateKey disk.keyFile).map crypto.publicKey =
        some (crypto.publicKey a.key) := by
  unfold Disk.Matches
  rw [x509KeyPair_iff, a.leafKey, Option.map_eq_some_iff]
  simp only [Option.some.injEq, eq_comm]

namespace Agent

variable {s : Agent crypto}

@[simp] theorem setInstall_discarded (k : Nat) (i : Install crypto) :
    (s.setInstall k i).discarded = s.discarded := rfl

/-- An operation that leaves the files and the record of discarded keys alone. -/
theorem Safe.congr (h : s.Safe) {t : Agent crypto} (hdisk : t.disk = s.disk)
    (hdiscarded : t.discarded = s.discarded) : t.Safe :=
  ⟨hdisk ▸ h.files, hdiscarded ▸ h.kept⟩

/-- While the key is being written the agent is safe exactly when the certificate on disk has this
key. -/
theorem safe_writingKey_iff (h : s.Safe) (k : Nat) (a : Admitted crypto) :
    (s.advance k none (.writingKey a)).Safe ↔
      crypto.leafKey s.disk.certFile = some (crypto.publicKey a.key) := by
  rw [← matches_writingKey]
  exact ⟨fun hnext => hnext.files, fun hfiles => ⟨hfiles, h.kept⟩⟩

/-- While the certificate is being written it is safe exactly when the key on disk is of that
pair. -/
theorem safe_writingCert_iff (h : s.Safe) (k : Nat) (a : Admitted crypto) :
    (s.advance k none (.writingCert a)).Safe ↔
      (crypto.privateKey s.disk.keyFile).map crypto.publicKey =
        some (crypto.publicKey a.key) := by
  rw [← matches_writingCert]
  exact ⟨fun hnext => hnext.files, fun hfiles => ⟨hfiles, h.kept⟩⟩

/-- A write that fails changes nothing. -/
theorem safe_failed (h : s.Safe) (k : Nat) (a : Admitted crypto) (e : String) :
    (s.advance k (some e) (.writingKey a)).Safe ∧ (s.advance k (some e) (.writingCert a)).Safe :=
  ⟨h.congr rfl rfl, h.congr rfl rfl⟩

/-- Giving the pending key up is safe when it is not from a later renewal. -/
theorem safe_clearing_iff (h : s.Safe) (k : Nat) (a : Admitted crypto) (err : Option String) :
    (s.advance k err (.clearing a)).Safe ↔ ∀ key j, s.pending = some (key, j) → j ≤ a.renewal := by
  have hdiscarded : (s.advance k err (.clearing a)).discarded = false ↔
      ∀ key j, s.pending = some (key, j) → j ≤ a.renewal := by
    cases hpending : s.pending with
    | none => simp [advance, hpending, h.kept]
    | some p =>
        obtain ⟨key, j⟩ := p
        simp [advance, hpending, h.kept]
  constructor
  · intro hnext
    exact hdiscarded.mp hnext.kept
  · intro hpending
    exact ⟨h.files, hdiscarded.mpr hpending⟩

/-- Writing the authority's certificate touches neither of the two files. -/
theorem safe_writingCA (h : s.Safe) (k : Nat) (a : Admitted crypto) (err : Option String) :
    (s.advance k err (.writingCA a)).Safe := by
  simp only [advance]
  split
  · exact h.congr rfl rfl
  · exact ⟨h.files, h.kept⟩

/-- Reading is safe. -/
theorem safe_reading (h : s.Safe) (k : Nat) (body : CertBody) (err : Option String) :
    (s.advance k err (.reading body)).Safe := by
  simp only [advance]
  split <;> exact h.congr rfl rfl

theorem safe_loading (h : s.Safe) (k : Nat) (body : CertBody) (key : Key) (renewal : Nat)
    (err : Option String) : (s.advance k err (.loading body key renewal)).Safe := by
  simp only [advance]
  split <;> exact h.congr rfl rfl

/-- **One event.**  From a safe state it leads to a safe state exactly when it is
harmless. -/
theorem safe_step_iff (h : s.Safe) (e : Event Key) : (s.step e).Safe ↔ Harmless s e := by
  cases e with
  | renew =>
      simp only [step, Harmless, iff_true]
      split
      · exact h.congr rfl rfl
      · exact h
  | generated j key =>
      simp only [step, Harmless, iff_true]
      split
      · split
        · exact h.congr rfl rfl
        · split <;> exact h.congr rfl rfl
      · exact h
  | store j =>
      simp only [step, Harmless, iff_true]
      split
      · exact h.congr rfl rfl
      · exact h
  | install body =>
      simp only [step, Harmless, iff_true]
      split
      · split <;> exact h.congr rfl rfl
      · exact h
  | restart =>
      simp only [step, Harmless, iff_true]
      exact ⟨h.files, h.kept⟩
  | advance k err =>
      simp only [step]
      cases hinstall : s.installs[k]? with
      | none => cases err <;> simp [Harmless, hinstall, h]
      | some i =>
          cases i with
          | reading body => cases err <;> simp [Harmless, hinstall, safe_reading h]
          | loading body key renewal => cases err <;> simp [Harmless, hinstall, safe_loading h]
          | writingKey a =>
              cases err with
              | none => simpa only [Harmless, hinstall] using safe_writingKey_iff h k a
              | some e => simp [Harmless, hinstall, (safe_failed h k a e).1]
          | writingCert a =>
              cases err with
              | none => simpa only [Harmless, hinstall] using safe_writingCert_iff h k a
              | some e => simp [Harmless, hinstall, (safe_failed h k a e).2]
          | writingCA a => cases err <;> simp [Harmless, hinstall, safe_writingCA h]
          | clearing a =>
              cases err with
              | none => simpa only [Harmless, hinstall] using safe_clearing_iff h k a none
              | some e => simpa only [Harmless, hinstall] using safe_clearing_iff h k a (some e)
          | done reply => cases err <;> simp [Harmless, hinstall, advance, h]

end Agent

/-! ## Whole runs -/

/-- **The files match in every state, and no later key is given up**, on exactly those
runs whose every operation is harmless. -/
theorem renewal_safe_iff {s : Agent crypto} (h : s.Safe) (events : List (Event Key)) :
    Throughout Agent.step Agent.Safe s events ↔ Along Agent.step Harmless s events := by
  refine throughout_iff_along _ ?_ h events
  intro t e ht
  exact Agent.safe_step_iff ht e

/-! ## Keys that are numbers -/

/-- Keys, certificates and their texts as so many letters. -/
def letters : Crypto Nat Nat where
  publicKey := id
  csr key := .ok (String.ofList (List.replicate key 'r'))
  encodeKey key := .ok (String.ofList (List.replicate key 'k'))
  parseCert pem := .ok ⟨some pem.toList.length, "2027-01-01T00:00:00Z"⟩
  leafKey pem := some pem.toList.length
  privateKey pem := some pem.toList.length
  decode_encode key pem h := by
    cases h
    simp

/-- A running agent with its first key. -/
def running : Agent letters := Agent.started letters ⟨"k", "c", "ca"⟩ false

/-- A `POST` and the `PUT` that follows it, up to its first file. -/
def upToKeyFile (key : Nat) (certPEM : String) : List (Event Nat) :=
  [.renew, .generated 0 (some key), .store 0, .install (.ok ⟨certPEM, ""⟩), .advance 0 none,
    .advance 0 none, .advance 0 none]

/-- A renewal whose certificate is for the key that the agent has already. -/
theorem same_key_renewal_safe :
    Throughout Agent.step Agent.Safe running (upToKeyFile 1 "c" ++ [.advance 0 none]) := by
  refine (renewal_safe_iff ⟨by decide +kernel, rfl⟩ _).mpr ?_
  exact ⟨trivial, trivial, trivial, trivial, trivial, trivial, rfl, rfl, trivial⟩

/-- The agent does not start again after a crash between the two files. -/
theorem crash_between_files_bricks :
    ¬ Throughout Agent.step Agent.Safe running (upToKeyFile 2 "cc" ++ [.restart]) ∧
      (after Agent.step running (upToKeyFile 2 "cc" ++ [.restart])).holder = none := by
  have hstarted : (after Agent.step running (upToKeyFile 2 "cc" ++ [.restart])).holder = none := by
    decide +kernel
  refine ⟨fun h => ?_, hstarted⟩
  have hfiles : ¬ (after Agent.step running (upToKeyFile 2 "cc" ++ [.restart])).disk.Matches
      letters := by
    decide +kernel
  exact hfiles (throughout_last _ h).files

-- two installs at a time leave files that do not match, without a crash
example : ¬ (after Agent.step running
    [.renew, .renew, .generated 0 (some 2), .generated 1 (some 3), .store 0,
      .install (.ok ⟨"cc", ""⟩), .advance 0 none, .store 1, .install (.ok ⟨"ccc", ""⟩),
      .advance 1 none, .advance 0 none, .advance 1 none, .advance 0 none, .advance 1 none,
      .advance 1 none, .advance 0 none]).disk.Matches letters := by
  decide +kernel

/-! ## Installs one after the other -/

/-- An install has written the key file and not yet the certificate file. -/
def Agent.Between (s : Agent crypto) : Prop :=
  ∃ (k : Nat) (a : Admitted crypto), s.installs[k]? = some (.writingCert a)

/-- No install begins with the files while another one is between them, and none stops
there. -/
def Serial (s : Agent crypto) : Event Key → Prop
  | .advance k none =>
      match s.installs[k]? with
      | some (.writingKey _) => ¬ s.Between
      | _ => True
  | .advance k (some _) =>
      match s.installs[k]? with
      | some (.writingCert _) => False
      | _ => True
  | .restart => ¬ s.Between
  | _ => True

/-- What holds as long as one install at a time is between the files. -/
structure Agent.Orderly (s : Agent crypto) : Prop where
  single : ∀ (j k : Nat) (a b : Admitted crypto), s.installs[j]? = some (.writingCert a) →
    s.installs[k]? = some (.writingCert b) → j = k
  half : ∀ (k : Nat) (a : Admitted crypto), s.installs[k]? = some (.writingCert a) →
    s.disk.keyFile = a.keyPEM
  whole : ¬ s.Between → s.disk.Matches crypto

section Orderly

variable {s : Agent crypto}

/-- A step that changes neither of the files nor who is between them. -/
theorem Agent.Orderly.congr (h : s.Orderly) {t : Agent crypto}
    (hkey : t.disk.keyFile = s.disk.keyFile) (hcert : t.disk.certFile = s.disk.certFile)
    (hinstalls : ∀ (k : Nat) (a : Admitted crypto),
      t.installs[k]? = some (.writingCert a) ↔ s.installs[k]? = some (.writingCert a)) :
    t.Orderly where
  single j k a b hj hk := h.single j k a b ((hinstalls j a).mp hj) ((hinstalls k b).mp hk)
  half k a hk := hkey.trans (h.half k a ((hinstalls k a).mp hk))
  whole hnone := by
    have hold : s.disk.Matches crypto := by
      apply h.whole
      intro hbetween
      obtain ⟨k, a, hk⟩ := hbetween
      exact hnone ⟨k, a, (hinstalls k a).mpr hk⟩
    unfold Disk.Matches at hold ⊢
    rw [hkey, hcert]
    exact hold

/-- An install that is not between the files before or after its operation. -/
theorem between_set {k : Nat} {i i' : Install crypto} (hi : s.installs[k]? = some i)
    (hbefore : ∀ a, i ≠ .writingCert a) (hafter : ∀ a, i' ≠ .writingCert a) (j : Nat)
    (a : Admitted crypto) :
    (s.installs.set k i')[j]? = some (.writingCert a) ↔
      s.installs[j]? = some (.writingCert a) := by
  by_cases hjk : j = k
  · rw [hjk, List.getElem?_set_self (List.getElem?_eq_some_iff.mp hi).1, hi]
    simp [hbefore a, hafter a]
  · rw [List.getElem?_set_ne (Ne.symm hjk)]

/-- A new install that is not in the middle writes no certificate. -/
theorem between_append {i : Install crypto} (hi : ∀ a, i ≠ .writingCert a) (j : Nat)
    (a : Admitted crypto) :
    (s.installs ++ [i])[j]? = some (.writingCert a) ↔
      s.installs[j]? = some (.writingCert a) := by
  constructor
  · intro h
    rcases getElem?_append_cases h with ⟨-, heq⟩ | h
    · exact (hi a heq.symm).elim
    · exact h
  · intro h
    rw [List.getElem?_append_left (List.getElem?_eq_some_iff.mp h).1]
    exact h

/-- The key file is written when nobody is between the files. -/
theorem orderly_writingKey {k : Nat} {a : Admitted crypto} (hnone : ¬ s.Between)
    (hi : s.installs[k]? = some (.writingKey a)) :
    (s.advance k none (.writingKey a)).Orderly := by
  -- the install is the only one between the files afterwards
  have honly : ∀ (j : Nat) (b : Admitted crypto),
      (s.installs.set k (.writingCert a))[j]? = some (.writingCert b) → j = k ∧ b = a := by
    intro j b hj
    rcases getElem?_set_cases hj with ⟨hjk, heq⟩ | ⟨-, hold⟩
    · exact ⟨hjk, by simpa using heq⟩
    · exact (hnone ⟨j, b, hold⟩).elim
  exact
    { single := fun j l b c hj hl => (honly j b hj).1.trans (honly l c hl).1.symm
      half := fun j b hj => by
        rw [(honly j b hj).2]
        rfl
      whole := fun hnone' => by
        refine (hnone' ⟨k, a, ?_⟩).elim
        exact List.getElem?_set_self (List.getElem?_eq_some_iff.mp hi).1 }

/-- The certificate file follows the key file that the same install has written. -/
theorem orderly_writingCert (h : s.Orderly) {k : Nat} {a : Admitted crypto}
    (hi : s.installs[k]? = some (.writingCert a)) :
    (s.advance k none (.writingCert a)).Orderly := by
  have hnone : ∀ (j : Nat) (b : Admitted crypto),
      (s.installs.set k (.writingCA a))[j]? ≠ some (.writingCert b) := by
    intro j b hj
    rcases getElem?_set_cases hj with ⟨-, heq⟩ | ⟨hjk, hold⟩
    · cases heq
    · exact hjk (h.single j k b a hold hi)
  exact
    { single := fun j l b c hj _ => (hnone j b hj).elim
      half := fun j b hj => (hnone j b hj).elim
      whole := fun _ => by
        refine (matches_writingCert s.disk a).mpr ?_
        rw [h.half k a hi, a.privateKey]
        rfl }

/-- An install that advances alone keeps the agent orderly. -/
theorem orderly_advance (h : s.Orderly) {k : Nat} {err : Option String}
    (hserial : Serial s (.advance k err)) {i : Install crypto} (hi : s.installs[k]? = some i) :
    (s.advance k err i).Orderly := by
  cases i with
  | reading body =>
      simp only [Agent.advance]
      split <;> exact h.congr rfl rfl (between_set hi nofun nofun)
  | loading body key renewal =>
      simp only [Agent.advance]
      split <;> exact h.congr rfl rfl (between_set hi nofun nofun)
  | writingKey a =>
      cases err with
      | none =>
          simp only [Serial, hi] at hserial
          exact orderly_writingKey hserial hi
      | some e => exact h.congr rfl rfl (between_set hi nofun nofun)
  | writingCert a =>
      cases err with
      | none => exact orderly_writingCert h hi
      | some e => simp [Serial, hi] at hserial
  | writingCA a =>
      simp only [Agent.advance]
      split <;> exact h.congr rfl rfl (between_set hi nofun nofun)
  | clearing a => exact h.congr rfl rfl (between_set hi nofun nofun)
  | done reply => exact h

/-- An agent that has started is orderly. -/
theorem orderly_started {disk : Disk} (h : disk.Matches crypto) (discarded : Bool) :
    (Agent.started crypto disk discarded).Orderly where
  single j k a b hj := by simp [Agent.started] at hj
  half k a hk := by simp [Agent.started] at hk
  whole _ := h

/-- Installs that come one after the other keep the files orderly. -/
theorem orderly_step (h : s.Orderly) {e : Event Key} (hserial : Serial s e) :
    (s.step e).Orderly := by
  cases e with
  | renew =>
      simp only [Agent.step]
      split
      · exact h.congr rfl rfl fun _ _ => Iff.rfl
      · exact h
  | generated j key =>
      simp only [Agent.step]
      split
      · split
        · exact h.congr rfl rfl fun _ _ => Iff.rfl
        · split <;> exact h.congr rfl rfl fun _ _ => Iff.rfl
      · exact h
  | store j =>
      simp only [Agent.step]
      split
      · exact h.congr rfl rfl fun _ _ => Iff.rfl
      · exact h
  | install body =>
      simp only [Agent.step]
      split
      · split <;> exact h.congr rfl rfl (between_append nofun)
      · exact h
  | advance k err =>
      simp only [Agent.step]
      split
      · rename_i i hi
        exact orderly_advance h hserial hi
      · exact h
  | restart => exact orderly_started (h.whole hserial) s.discarded

end Orderly

/-- **Installs one after the other leave matching files**: in every state of a run in
which no install begins with the files while another one is between them, and none stops
there, the files match unless an install is between them. -/
theorem serial_installs_match {disk : Disk} (h : disk.Matches crypto)
    {events : List (Event Key)}
    (hrun : Along Agent.step Serial (Agent.started crypto disk false) events) :
    Throughout Agent.step (fun s => ¬ s.Between → s.disk.Matches crypto)
      (Agent.started crypto disk false) events := by
  have hstart : (Agent.started crypto disk false).Orderly := orderly_started h false
  have hkept : Throughout Agent.step Agent.Orderly (Agent.started crypto disk false) events := by
    refine throughout_of_invariant _ ?_ hstart hrun
    intro s e hs hserial
    exact orderly_step hs hserial
  exact throughout_mono _ (fun _ hs => hs.whole) hkept

end AdguardAdmin.CertRenewal
