import AdguardAdmin.FaultyPrograms
import AdguardAdmin.GoText
import AdguardAdmin.RunLaws
/-!
# The files of an enrolled agent

An enrollment brings a certificate and writes four files, each through a temporary file that is
renamed: the key, the certificate, the CA and `agent.json`.  The agent does not start without all
of them; another enrollment is refused as soon as there is a certificate.  Writes can fail, and
the process can be killed, anywhere.

* `writeFileAtomic_ends` — a file is written whole or not at all;
* `box_settles` — after every run of enrollments, the agent starts exactly if the last one that
  installed a certificate also finished; a box with a certificate and without the rest neither
  starts nor can be enrolled again.
-/

namespace AdguardAdmin.EnrolledFiles

open Faulty RunLaws GoText
open Faulty.Prog (Ends)

/-! ## The disk -/

inductive File where
  | key
  | cert
  | ca
  | agent
  deriving DecidableEq, Repr

/-- The calls that write one file. -/
inductive Call where
  | mkdir
  | createTemp
  | write
  | chmod
  | close
  | rename
  deriving DecidableEq, Repr

inductive Point where
  | request
  | mkdirConfig
  | mkdirSave
  | call (g : File) (c : Call)
  | removeTemp (g : File)
  | stateDirs
  | report
  deriving DecidableEq, Repr

/-- The configuration directory, with the temporary files left in it, the newest first.  A
process that was killed does nothing any more. -/
structure Box where
  files : File → Option String
  temps : List String
  sent : List String
  alive : Bool

namespace Box

variable (b : Box)

def act (effect : Box → Box) : Box := if b.alive then effect b else b

def killed : Box := { b with alive := false }

def createTemp : Box := { b with temps := "" :: b.temps }

def fill (data : String) : Box := { b with temps := b.temps.modifyHead fun _ => data }

def dropTemp : Box := { b with temps := b.temps.tail }

/-- `os.Rename` of the newest temporary file. -/
def install (g : File) : Box :=
  match b.temps with
  | data :: rest => { b with files := Function.update b.files g (some data), temps := rest }
  | [] => b

def send (endpoint : String) : Box := { b with sent := b.sent ++ [endpoint] }

end Box

/-- One call of the operating system: it takes effect, it fails, or the process is killed before
it is over. -/
def call (point : Point) (effect : Box → Box) (partly : Box → Box) : Prog Point Box Unit :=
  Prog.tearable point (·.act effect) fun b => (b.act partly).killed

def failWith {α : Type} (e : Failure Point) : Prog Point Box α := ⟨fun _ b => (.error e, b)⟩

/-- The calls between the temporary file and its renaming; `cut` is what a write leaves that is
cut short. -/
def fillAndRename (cut : String → String) (g : File) (data : String) : Prog Point Box Unit := do
  call (.call g .write) (·.fill data) (·.fill (cut data))
  call (.call g .chmod) id id
  call (.call g .close) id id
  call (.call g .rename) (·.install g) id

/-- `WriteFileAtomic`. -/
def writeFileAtomic (cut : String → String) (g : File) (data : String) : Prog Point Box Unit := do
  call (.call g .mkdir) id id
  call (.call g .createTemp) Box.createTemp id
  let result ← Prog.caught (fillAndRename cut g data)
  match result with
  | .ok _ => pure ()
  | .error e => do
      Prog.attempt (.removeTemp g) (·.act Box.dropTemp)
      failWith e

/-! ## Enrolling -/

structure Options where
  url : String
  token : String
  listen : String
  address : String
  name : String
  version : String

/-- `net/url.URL`, as far as it is looked at; `text` is what it prints as. -/
structure Url where
  scheme : String
  host : String
  hostname : String
  text : String

structure Request where
  csrPEM : String
  hostname : String
  address : String
  port : Int
  os : String
  arch : String
  agentVersion : String
  deriving DecidableEq, Repr

structure Response where
  agentID : Int
  name : String
  certPEM : String
  caPEM : String
  notAfter : String
  deriving DecidableEq, Repr

/-- `config.Agent`. -/
structure Agent where
  listen : String
  name : String
  agentID : Int
  controlPlaneURL : String
  address : String
  dnsdistAPIKey : String
  dnsdistConsoleKey : String
  createdAt : String
  deriving DecidableEq, Repr

/-- What the agent takes from the standard library. -/
structure Library where
  parseURL : String → Option Url
  parseCert : String → Except Error Unit
  pool : String → Except Error Unit
  x509KeyPair : String → String → Bool
  decode : String → Except Error Response
  decodeDetail : String → Option String
  marshal : Agent → String
  unmarshal : String → Except Error Agent

/-- What an enrollment finds on its host and what it is answered. -/
structure Outside (Key : Type) where
  hostname : String
  os : String
  arch : String
  localAddressFor : String → Except Error String
  generateKey : Except Error Key
  csr : Key → String → String → Except Error String
  encodeKey : Key → Except Error String
  send : String → Request → Except Error (Nat × String)
  apiKey : String
  consoleKey : String
  now : String
  cut : String → String
  apiKey_ne : apiKey ≠ ""
  consoleKey_ne : consoleKey ≠ ""

def defaultListen : String := "0.0.0.0:8443"

variable {Key : Type}

/-- `BuildRequest`. -/
def buildRequest (out : Outside Key) (o : Options) : Except Error (Request × String) := do
  let listen := if o.listen = "" then defaultListen else o.listen
  let (_, portStr) ← orFail (splitHostPort listen) "listen %q must be host:port" [listen]
  let port ← orFail (atoi portStr) "listen %q has a bad port" [listen]
  let name := if o.name = "" then out.hostname else o.name
  let key ← out.generateKey
  let csr ← out.csr key name o.address
  let keyPEM ← out.encodeKey key
  return (⟨csr, out.hostname, o.address, port, out.os, out.arch, o.version⟩, keyPEM)

/-- What is ready before the control plane is asked. -/
structure Prepared where
  endpoint : String
  request : Request
  keyPEM : String
  base : String
  address : String
  deriving DecidableEq, Repr

/-- `strings.TrimRight(s, "/")`. -/
def trimSlashes (s : String) : String :=
  String.ofList (s.toList.reverse.dropWhile (· = '/')).reverse

def ownAddress (out : Outside Key) (o : Options) (base : Url) : Except Error String :=
  if o.address = "" then
    wrap "could not determine this host's address, pass --address: "
      (out.localAddressFor base.hostname)
  else .ok o.address

/-- The checks of `Run`, up to the request. -/
def prepare (lib : Library) (out : Outside Key) (o : Options) (enrolled : Bool) :
    Except Error Prepared := do
  failIf (o.url = "" ∨ o.token = "") "--url and --token are required" []
  failIf (containsAny o.token "/ \t\n?#" = true)
    "token contains characters that cannot appear in a token" []
  let base ← orFail (lib.parseURL (trimSlashes o.url)) "--url must be an http(s) URL" []
  failIf (base.scheme ≠ "http" ∧ base.scheme ≠ "https" ∨ base.host = "")
    "--url must be an http(s) URL" []
  let address ← ownAddress out o base
  failIf (enrolled = true)
    "%s already exists; this host is enrolled (remove %s to re-enroll)" ["agent.crt", "config"]
  let (request, keyPEM) ← buildRequest out { o with address := address }
  return ⟨base.text ++ "/api/provision/" ++ o.token ++ "/enroll", request, keyPEM, base.text,
    address⟩

/-- What is made of the answer. -/
def accept (lib : Library) (answer : Except Error (Nat × String)) : Except Error Response := do
  let (status, raw) ← wrap "enroll request failed: " answer
  if status ≠ 200 then
    match lib.decodeDetail raw with
    | some detail => errorf "enrollment refused (HTTP %d): %v" [detail]
    | none => errorf "enrollment refused (HTTP %d): %s" [raw]
  else do
    let reply ← wrap "bad enrollment response: " (lib.decode raw)
    wrap "control plane returned an unusable certificate: " (lib.parseCert reply.certPEM)
    wrap "control plane returned an unusable CA: " (lib.pool reply.caPEM)
    return reply

/-- The secrets that `Save` makes up. -/
def fillIn (out : Outside Key) (cfg : Agent) : Agent :=
  { cfg with
    dnsdistAPIKey := if cfg.dnsdistAPIKey = "" then out.apiKey else cfg.dnsdistAPIKey
    dnsdistConsoleKey := if cfg.dnsdistConsoleKey = "" then out.consoleKey else cfg.dnsdistConsoleKey
    createdAt := if cfg.createdAt = "" then out.now else cfg.createdAt }

/-- `config.Save`. -/
def save (lib : Library) (out : Outside Key) (cfg : Agent) : Prog Point Box Unit := do
  call .mkdirSave id id
  writeFileAtomic out.cut .agent (lib.marshal (fillIn out cfg))

/-- The settings of an enrollment. -/
def settings (o : Options) (p : Prepared) (reply : Response) : Agent where
  listen := if o.listen = "" then defaultListen else o.listen
  name := if reply.name = "" then p.request.hostname else reply.name
  agentID := reply.agentID
  controlPlaneURL := p.base
  address := p.address
  dnsdistAPIKey := ""
  dnsdistConsoleKey := ""
  createdAt := ""

/-- The files that `Run` writes. -/
def writeIdentity (lib : Library) (out : Outside Key) (o : Options) (p : Prepared)
    (reply : Response) : Prog Point Box Unit := do
  call .mkdirConfig id id
  writeFileAtomic out.cut .key p.keyPEM
  writeFileAtomic out.cut .cert reply.certPEM
  writeFileAtomic out.cut .ca reply.caPEM
  save lib out (settings o p reply)

/-- `Run`. -/
def run (lib : Library) (out : Outside Key) (o : Options) :
    Prog Point Box (Except Error Response) := do
  let enrolled ← Prog.read fun b : Box => (b.files .cert).isSome
  match prepare lib out o enrolled with
  | .error e => pure (.error e)
  | .ok p => do
      call .request (·.send p.endpoint) (·.send p.endpoint)
      match accept lib (out.send p.endpoint p.request) with
      | .error e => pure (.error e)
      | .ok reply => do
          writeIdentity lib out o p reply
          call .report id id
          pure (.ok reply)

/-! ## Serving -/

/-- `config.Load`. -/
def load (lib : Library) (b : Box) : Except Error Agent :=
  match b.files .agent with
  | none => errorf "open agent.json: no such file or directory" []
  | some raw => do
      let cfg ← wrap "parse %s: " (lib.unmarshal raw)
      return { cfg with listen := if cfg.listen = "" then defaultListen else cfg.listen }

/-- `Holder.LoadFiles`. -/
def loadFiles (lib : Library) (b : Box) : Except Error Unit :=
  match b.files .cert, b.files .key with
  | some certPEM, some keyPEM =>
      failIf (lib.x509KeyPair certPEM keyPEM = false)
        "tls: private key does not match public key" []
  | _, _ => errorf "no such file or directory" []

/-- `os.ReadFile` of the CA and `Pool`. -/
def loadPool (lib : Library) (b : Box) : Except Error Unit :=
  match b.files .ca with
  | none => errorf "open ca.crt: no such file or directory" []
  | some caPEM => lib.pool caPEM

/-- `serve`, up to the first connection. -/
def serve (lib : Library) (out : Outside Key) : Prog Point Box (Except Error Agent) := do
  let b ← Prog.read fun b : Box => b
  if b.files .cert = none ∨ b.files .key = none ∨ b.files .ca = none then
    pure (errorf "agent is not enrolled: run `adguard-admin-agent enroll` first" [])
  else
    match load lib b with
    | .error e => pure (.error e)
    | .ok cfg => do
        let missing := cfg.dnsdistAPIKey = "" ∨ cfg.dnsdistConsoleKey = ""
        Prog.onlyIf missing (save lib out cfg)
        match wrap "load certificate: " (loadFiles lib b) with
        | .error e => pure (.error e)
        | .ok _ => do
            call .stateDirs id id
            match loadPool lib b with
            | .error e => pure (.error e)
            | .ok _ => pure (.ok (if missing then fillIn out cfg else cfg))

/-! ## A file is written whole or not at all -/

section Calls

variable {f : Script Point} {P : Box → Prop} {Q : Unit → Box → Prop} {E : Box → Prop}

/-- A call that is made on a living box, from what each outcome leaves. -/
theorem ends_call {point : Point} {effect partly : Box → Box} (halive : ∀ b, P b → b.alive = true)
    (hdone : f point = .done → ∀ b, P b → Q () (effect b))
    (hfailed : f point ≠ .done → ∀ b, P b → E b ∧ E (partly b).killed) :
    Ends f P (call point effect partly) Q E := by
  intro b hb
  have heffect : b.act effect = effect b := if_pos (halive b hb)
  have hpartly : b.act partly = partly b := if_pos (halive b hb)
  unfold call Prog.tearable
  dsimp only
  cases hpoint : f point with
  | done => exact heffect ▸ hdone hpoint b hb
  | failed => exact (hfailed (by rw [hpoint]; decide) b hb).1
  | torn => exact hpartly ▸ (hfailed (by rw [hpoint]; decide) b hb).2

/-- A live process, and what is on the disk. -/
structure At (files : File → Option String) (sent : List String) (b : Box) : Prop where
  alive : b.alive = true
  files : b.files = files
  sent : b.sent = sent

def Left (files : File → Option String) (sent : List String) (b : Box) : Prop :=
  b.files = files ∧ b.sent = sent

/-- All calls that write a file do what they should. -/
def Writes (f : Script Point) (g : File) : Prop := ∀ c, f (.call g c) = .done

variable {files : File → Option String} {sent : List String} {cut : String → String} {g : File}
variable {data : String}

theorem At.left {b : Box} (h : At files sent b) : Left files sent b := ⟨h.files, h.sent⟩

/-- A call that changes no file. -/
theorem ends_idle {point : Point} :
    Ends f (At files sent) (call point id id) (fun _ b => At files sent b ∧ f point = .done)
      fun b => Left files sent b ∧ f point ≠ .done :=
  ends_call (fun _ h => h.alive) (fun hdone _ h => ⟨h, hdone⟩)
    fun hfailed _ h => ⟨⟨h.left, hfailed⟩, h.left, hfailed⟩

/-- A file that is filled and renamed is whole, and only then in its place. -/
theorem fillAndRename_ends :
    Ends f (fun b => At files sent b ∧ b.temps ≠ []) (fillAndRename cut g data)
      (fun _ b => At (Function.update files g (some data)) sent b ∧ f (.call g .write) = .done ∧
        f (.call g .chmod) = .done ∧ f (.call g .close) = .done ∧ f (.call g .rename) = .done)
      fun b => Left files sent b ∧ ¬ Writes f g := by
  have hends : ∀ {c : Call} {b : Box}, f (.call g c) ≠ .done → At files sent b →
      (Left files sent b ∧ ¬ Writes f g) ∧ Left files sent (id b).killed ∧ ¬ Writes f g :=
    fun hfailed h => ⟨⟨h.left, fun hall => hfailed (hall _)⟩, h.left, fun hall => hfailed (hall _)⟩
  unfold fillAndRename
  refine Ends.bind (R := fun _ b => (At files sent b ∧ b.temps.head? = some data) ∧
    f (.call g .write) = .done) ?write fun _ => ?_
  case write =>
    refine ends_call (fun _ h => h.1.alive) ?_ fun hfailed b h => hends hfailed h.1
    rintro hdone b ⟨h, htemps⟩
    refine ⟨⟨⟨h.alive, h.files, h.sent⟩, ?_⟩, hdone⟩
    obtain ⟨t, rest, hlist⟩ := List.exists_cons_of_ne_nil htemps
    rw [Box.fill, hlist]
    rfl
  refine Ends.bind (R := fun _ b => (At files sent b ∧ b.temps.head? = some data) ∧
    f (.call g .write) = .done ∧ f (.call g .chmod) = .done) ?chmod fun _ => ?_
  case chmod =>
    exact ends_call (fun _ h => h.1.1.alive) (fun hdone b h => ⟨h.1, h.2, hdone⟩)
      fun hfailed b h => hends hfailed h.1.1
  refine Ends.bind (R := fun _ b => (At files sent b ∧ b.temps.head? = some data) ∧
    f (.call g .write) = .done ∧ f (.call g .chmod) = .done ∧ f (.call g .close) = .done)
    ?close fun _ => ?_
  case close =>
    exact ends_call (fun _ h => h.1.1.alive) (fun hdone b h => ⟨h.1, h.2.1, h.2.2, hdone⟩)
      fun hfailed b h => hends hfailed h.1.1
  refine ends_call (fun _ h => h.1.1.alive) ?_ fun hfailed b h => hends hfailed h.1.1
  rintro hdone b ⟨⟨h, htemps⟩, hwrite, hchmod, hclose⟩
  refine ⟨?_, hwrite, hchmod, hclose, hdone⟩
  obtain ⟨rest, hlist⟩ := List.head?_eq_some_iff.mp htemps
  unfold Box.install
  rw [hlist]
  exact ⟨h.alive, congrArg (Function.update · g (some data)) h.files, h.sent⟩

/-- **A file is written whole or not at all**, and whole exactly if nothing goes wrong. -/
theorem writeFileAtomic_ends :
    Ends f (At files sent) (writeFileAtomic cut g data)
      (fun _ b => At (Function.update files g (some data)) sent b ∧ Writes f g)
      fun b => Left files sent b ∧ ¬ Writes f g := by
  unfold writeFileAtomic
  refine Ends.bind (R := fun _ b => At files sent b ∧ f (.call g .mkdir) = .done) ?mkdir
    fun _ => ?_
  case mkdir =>
    exact ends_idle.weaken (fun _ h => h) (fun _ _ h => h)
      fun _ h => ⟨h.1, fun hall => h.2 (hall _)⟩
  refine Ends.bind (R := fun _ b => (At files sent b ∧ b.temps ≠ []) ∧
    f (.call g .mkdir) = .done ∧ f (.call g .createTemp) = .done) ?createTemp fun _ => ?_
  case createTemp =>
    refine ends_call (fun _ h => h.1.alive) ?_ ?_
    · rintro hdone b ⟨h, hmkdir⟩
      exact ⟨⟨⟨h.alive, h.files, h.sent⟩, List.cons_ne_nil _ _⟩, hmkdir, hdone⟩
    · rintro hfailed b ⟨h, -⟩
      exact ⟨⟨h.left, fun hall => hfailed (hall _)⟩, h.left, fun hall => hfailed (hall _)⟩
  refine Ends.given (fun _ h => h.2) fun hcalls => ?_
  refine Ends.bind (Prog.ends_caught (Q := fun result b => match result with
    | .ok _ => At (Function.update files g (some data)) sent b ∧ Writes f g
    | .error _ => Left files sent b ∧ ¬ Writes f g)
    (fillAndRename_ends.weaken (fun _ h => h.1) ?_ fun b h e => h)) fun result => ?_
  · rintro _ b ⟨h, hwrite, hchmod, hclose, hrename⟩
    refine ⟨h, fun c => ?_⟩
    cases c with
    | mkdir => exact hcalls.1
    | createTemp => exact hcalls.2
    | write => exact hwrite
    | chmod => exact hchmod
    | close => exact hclose
    | rename => exact hrename
  · cases result with
    | ok _ => exact Prog.ends_pure fun b h => h
    | error e =>
        refine Ends.bind (R := fun _ b => Left files sent b ∧ ¬ Writes f g) ?_ fun _ b h => h
        refine Prog.ends_attempt (fun _ b h => ⟨?_, h.2⟩) fun _ b h => h
        unfold Box.act
        split
        · exact h.1
        · exact h.1

end Calls

/-! ## One enrollment -/

def allCalls : List Call := [.mkdir, .createTemp, .write, .chmod, .close, .rename]

theorem mem_allCalls (c : Call) : c ∈ allCalls := by cases c <;> decide

instance (f : Script Point) (g : File) : Decidable (Writes f g) :=
  decidable_of_iff (∀ c ∈ allCalls, f (.call g c) = .done)
    ⟨fun h c => h c (mem_allCalls c), fun h c _ => h c⟩

/-- An enrollment: what it finds, what it is told, and which of its calls fail. -/
structure Attempt (Key : Type) where
  out : Outside Key
  options : Options
  script : Script Point

namespace Attempt

variable (lib : Library) (a : Attempt Key)

/-- What a box without a certificate is answered. -/
def reply : Option (Prepared × Response) :=
  match prepare lib a.out a.options false with
  | .error _ => none
  | .ok p =>
      match accept lib (a.out.send p.endpoint p.request) with
      | .error _ => none
      | .ok r => some (p, r)

/-- The certificate gets onto the disk. -/
def Installs : Prop :=
  (a.reply lib).isSome = true ∧ a.script .request = .done ∧ a.script .mkdirConfig = .done ∧
    Writes a.script .key ∧ Writes a.script .cert

/-- Everything after the certificate gets onto the disk. -/
def Finishes : Prop :=
  Writes a.script .ca ∧ a.script .mkdirSave = .done ∧ Writes a.script .agent

instance : Decidable (a.Installs lib) := inferInstanceAs (Decidable (_ ∧ _))

instance : Decidable a.Finishes := inferInstanceAs (Decidable (_ ∧ _))

def written (p : Prepared) (r : Response) : Agent := fillIn a.out (settings a.options p r)

/-- What an enrollment makes of the files of a box without a certificate. -/
structure Leaves (files files' : File → Option String) : Prop where
  idle : ¬ a.Installs lib → ∀ g, g ≠ .key → files' g = files g
  installed : a.Installs lib → ∀ p r, a.reply lib = some (p, r) →
    files' .key = some p.keyPEM ∧ files' .cert = some r.certPEM
  finished : a.Installs lib → a.Finishes → ∀ p r, a.reply lib = some (p, r) →
    files' .ca = some r.caPEM ∧ files' .agent = some (lib.marshal (a.written p r))
  unfinished : a.Installs lib → ¬ a.Finishes → files' .agent = files .agent

variable {lib a} {files files' : File → Option String} {sent : List String}

/-- An attempt that installs nothing leaves the files, but for the key. -/
theorem Leaves.of_idle (h : ¬ a.Installs lib) (hfiles : ∀ g, g ≠ .key → files' g = files g) :
    a.Leaves lib files files' :=
  ⟨fun _ => hfiles, fun hi => absurd hi h, fun hi => absurd hi h, fun hi => absurd hi h⟩

/-- An attempt that is cut short leaves what it had written. -/
theorem Leaves.of_partial (hi : a.Installs lib) (hf : ¬ a.Finishes) {p : Prepared} {r : Response}
    (hreply : a.reply lib = some (p, r)) (hkey : files' .key = some p.keyPEM)
    (hcert : files' .cert = some r.certPEM) (hagent : files' .agent = files .agent) :
    a.Leaves lib files files' where
  idle h := absurd hi h
  installed _ p' r' hreply' := by
    obtain ⟨rfl, rfl⟩ := Prod.mk.inj (Option.some.inj (hreply.symm.trans hreply'))
    exact ⟨hkey, hcert⟩
  finished _ h := absurd h hf
  unfinished _ _ := hagent

/-- What writing the identity leaves. -/
theorem writeIdentity_leaves {p : Prepared} {r : Response} (hreply : a.reply lib = some (p, r))
    (hrequest : a.script .request = .done) :
    Ends a.script (At files sent) (writeIdentity lib a.out a.options p r)
      (fun _ b => At b.files sent b ∧ a.Leaves lib files b.files)
      fun b => a.Leaves lib files b.files := by
  have hsome : (a.reply lib).isSome = true := by rw [hreply]; rfl
  unfold writeIdentity save
  refine Ends.bind (ends_idle.weaken (fun _ h => h) (fun _ _ h => h) fun b h => ?_) fun _ => ?_
  · exact Leaves.of_idle (fun hi => h.2 hi.2.2.1) fun g _ => by rw [h.1.1]
  refine Ends.given (fun _ h => h.2) fun hmkdir => ?_
  refine Ends.bind (writeFileAtomic_ends.weaken (fun _ h => h.1) (fun _ _ h => h) fun b h => ?_)
    fun _ => ?_
  · exact Leaves.of_idle (fun hi => h.2 hi.2.2.2.1) fun g _ => by rw [h.1.1]
  refine Ends.given (fun _ h => h.2) fun hkey => ?_
  refine Ends.bind (writeFileAtomic_ends.weaken (fun _ h => h.1) (fun _ _ h => h) fun b h => ?_)
    fun _ => ?_
  · refine Leaves.of_idle (fun hi => h.2 hi.2.2.2.2) fun g hg => ?_
    rw [h.1.1, Function.update_of_ne hg]
  refine Ends.given (fun _ h => h.2) fun hcert => ?_
  have hi : a.Installs lib := ⟨hsome, hrequest, hmkdir, hkey, hcert⟩
  refine Ends.bind (writeFileAtomic_ends.weaken (fun _ h => h.1) (fun _ _ h => h) fun b h => ?_)
    fun _ => ?_
  · refine Leaves.of_partial hi (fun hf => h.2 hf.1) hreply ?_ ?_ ?_ <;>
      rw [h.1.1] <;> simp [Function.update_of_ne]
  refine Ends.given (fun _ h => h.2) fun hca => ?_
  refine Ends.bind (ends_idle.weaken (fun _ h => h.1) (fun _ _ h => h) fun b h => ?_) fun _ => ?_
  · refine Leaves.of_partial hi (fun hf => h.2 hf.2.1) hreply ?_ ?_ ?_ <;>
      rw [h.1.1] <;> simp [Function.update_of_ne]
  refine Ends.given (fun _ h => h.2) fun hsave => ?_
  refine writeFileAtomic_ends.weaken (fun _ h => h.1) (fun _ b h => ⟨⟨h.1.alive, rfl, h.1.sent⟩, ?_⟩)
    fun b h => ?_
  · exact {
      idle := fun hn => absurd hi hn
      installed := fun _ p' r' hreply' => by
        obtain ⟨rfl, rfl⟩ := Prod.mk.inj (Option.some.inj (hreply.symm.trans hreply'))
        rw [h.1.files]
        simp [Function.update_of_ne]
      finished := fun _ _ p' r' hreply' => by
        obtain ⟨rfl, rfl⟩ := Prod.mk.inj (Option.some.inj (hreply.symm.trans hreply'))
        rw [h.1.files]
        simp [Function.update_of_ne, written]
      unfinished := fun _ hn => absurd ⟨hca, hsave, h.2⟩ hn }
  · refine Leaves.of_partial hi (fun hf => h.2 hf.2.2) hreply ?_ ?_ ?_ <;>
      rw [h.1.1] <;> simp [Function.update_of_ne]

/-- Without an answer nothing is installed. -/
theorem not_installs (h : a.reply lib = none) : ¬ a.Installs lib := by
  intro hi
  rw [Installs, h] at hi
  exact Bool.false_ne_true hi.1

/-- No reply comes where the preparation fails. -/
theorem reply_of_error {e : Error} (hp : prepare lib a.out a.options false = .error e) :
    a.reply lib = none := by
  rw [reply, hp]

/-- No reply comes where the answer is refused. -/
theorem reply_of_refused {p : Prepared} {e : Error}
    (hp : prepare lib a.out a.options false = .ok p)
    (hr : accept lib (a.out.send p.endpoint p.request) = .error e) : a.reply lib = none := by
  rw [reply, hp]
  dsimp only
  rw [hr]

/-- A reply is an accepted answer to what was prepared. -/
theorem reply_of_ok {p : Prepared} {r : Response}
    (hp : prepare lib a.out a.options false = .ok p)
    (hr : accept lib (a.out.send p.endpoint p.request) = .ok r) :
    a.reply lib = some (p, r) := by
  rw [reply, hp]
  dsimp only
  rw [hr]

/-- The request goes out, or the enrollment ends and leaves the files alone. -/
theorem send_leaves (endpoint : String) :
    Ends a.script (At files sent) (call .request (·.send endpoint) (·.send endpoint))
      (fun _ b => (∃ sent', At files sent' b) ∧ a.script .request = .done)
      fun b => a.Leaves lib files b.files := by
  refine ends_call (fun b h => h.alive)
    (fun hdone b h => ⟨⟨_, h.alive, h.files, rfl⟩, hdone⟩) fun hfailed b h => ?_
  have hidle : ¬ a.Installs lib := fun hi => hfailed hi.2.1
  exact ⟨Leaves.of_idle hidle fun g _ => by rw [h.files],
    Leaves.of_idle hidle fun g _ => by rw [← h.files]; rfl⟩

/-- The first enrollment of a box. -/
theorem run_leaves (hcert : files .cert = none) :
    Ends a.script (At files sent) (run lib a.out a.options)
      (fun _ b => a.Leaves lib files b.files) fun b => a.Leaves lib files b.files := by
  unfold run
  refine Ends.bind (R := fun enrolled b => enrolled = false ∧ At files sent b)
    (Prog.ends_read fun b h => ⟨by rw [h.files, hcert]; rfl, h⟩) fun enrolled => ?_
  refine Ends.given (fun _ h => h.1) fun henrolled => ?_
  subst henrolled
  cases hp : prepare lib a.out a.options false with
  | error e =>
      exact Prog.ends_pure fun b h =>
        Leaves.of_idle (not_installs (reply_of_error hp)) fun g _ => by rw [h.2.files]
  | ok p =>
      dsimp only
      refine Ends.bind ((send_leaves p.endpoint).strengthen fun _ h => h.2) fun _ => ?_
      refine Ends.given (fun _ h => h.2) fun hrequest => ?_
      refine Ends.strengthen (P := fun b => ∃ sent', At files sent' b) (Ends.exists fun sent' => ?_)
        fun b h => h.1
      cases hr : accept lib (a.out.send p.endpoint p.request) with
      | error e =>
          exact Prog.ends_pure fun b h =>
            Leaves.of_idle (not_installs (reply_of_refused hp hr)) fun g _ => by rw [h.files]
      | ok r =>
          dsimp only
          refine Ends.bind (writeIdentity_leaves (reply_of_ok hp hr) hrequest) fun _ => ?_
          refine Ends.bind (R := fun _ b => a.Leaves lib files b.files)
            (ends_call (fun b h => h.1.alive) (fun _ b h => h.2) fun _ b h => ⟨h.2, h.2⟩)
            fun _ => Prog.ends_pure fun b h => h

/-- The certificate is one for the key of the request, and `agent.json` is read as it was
written. -/
def Sound (lib : Library) (a : Attempt Key) : Prop :=
  ∀ q ∈ a.reply lib,
    lib.x509KeyPair q.2.certPEM q.1.keyPEM = true ∧
      lib.unmarshal (lib.marshal (a.written q.1 q.2)) = .ok (a.written q.1 q.2)

instance : Decidable (a.Sound lib) := inferInstanceAs (Decidable (∀ _ ∈ _, _))

end Attempt

/-! ## A box that has a certificate -/

section Enrolled

variable {lib : Library} {out : Outside Key} {o : Options}

/-- A box that is enrolled prepares nothing. -/
theorem prepare_enrolled {p : Prepared} : prepare lib out o true ≠ .ok p := by
  unfold prepare
  intro h
  obtain ⟨_, -, h⟩ := bind_ok.mp h
  obtain ⟨_, -, h⟩ := bind_ok.mp h
  obtain ⟨base, -, h⟩ := bind_ok.mp h
  obtain ⟨_, -, h⟩ := bind_ok.mp h
  obtain ⟨address, -, h⟩ := bind_ok.mp h
  obtain ⟨_, hrefused, -⟩ := bind_ok.mp h
  exact failIf_ok.mp hrefused rfl

/-- Nothing is sent and nothing is changed. -/
def Refuses (Key : Type) (lib : Library) (b : Box) : Prop :=
  ∀ (out : Outside Key) (o : Options) (f : Script Point),
    ∃ e, (run lib out o).run f b = (.ok (.error e), b)

/-- A box with a certificate refuses to enroll. -/
theorem refuses_of_cert {b : Box} (h : b.files .cert ≠ none) : Refuses Key lib b := by
  intro out o f
  have hsome : (b.files .cert).isSome = true := Option.isSome_iff_ne_none.mpr h
  cases hp : prepare lib out o true with
  | ok p => exact absurd hp prepare_enrolled
  | error e =>
      refine ⟨e, ?_⟩
      unfold run
      rw [Prog.bind_run, Prog.read]
      dsimp only
      rw [hsome, hp]
      rfl

/-- Whatever fails, unless it is the creation of a directory, the agent starts. -/
def Starts (Key : Type) (lib : Library) (b : Box) : Prop :=
  ∀ (out : Outside Key) (f : Script Point), f .stateDirs = .done →
    ∃ cfg, ((serve lib out).run f b).1 = .ok (.ok cfg)

def NeverStarts (Key : Type) (lib : Library) (b : Box) : Prop :=
  ∀ (out : Outside Key) (f : Script Point) (cfg : Agent),
    ((serve lib out).run f b).1 ≠ .ok (.ok cfg)

/-- A box without one of its files never starts. -/
theorem neverStarts_of_missing {b : Box} (h : b.files .cert = none ∨ b.files .agent = none) :
    NeverStarts Key lib b := by
  intro out f cfg
  unfold serve
  rw [Prog.bind_run, Prog.read]
  dsimp only
  split
  · intro hok
    cases hok
  · next hfiles =>
      have hagent : b.files .agent = none := h.resolve_left fun hcert => hfiles (.inl hcert)
      have hload : load lib b = errorf "open agent.json: no such file or directory" [] := by
        rw [load, hagent]
      rw [hload]
      intro hok
      cases hok

/-- A box with all of its files starts. -/
theorem starts_of_files {b : Box} {cert key ca raw : String} {cfg : Agent}
    (halive : b.alive = true) (hcert : b.files .cert = some cert) (hkey : b.files .key = some key)
    (hca : b.files .ca = some ca) (hraw : b.files .agent = some raw)
    (hpair : lib.x509KeyPair cert key = true) (hpool : lib.pool ca = .ok ())
    (hcfg : lib.unmarshal raw = .ok cfg) (hapi : cfg.dnsdistAPIKey ≠ "")
    (hconsole : cfg.dnsdistConsoleKey ≠ "") : Starts Key lib b := by
  intro out f hdirs
  have hload : load lib b =
      .ok { cfg with listen := if cfg.listen = "" then defaultListen else cfg.listen } := by
    rw [load, hraw]
    dsimp only
    rw [hcfg]
    rfl
  have hfiles : loadFiles lib b = .ok () := by
    rw [loadFiles, hcert, hkey]
    exact failIf_ok.mpr (by rw [hpair]; decide)
  have hca' : loadPool lib b = .ok () := by
    rw [loadPool, hca]
    exact hpool
  have hcall : (call .stateDirs id id).run f b = (.ok (), b) := by
    rw [call, Prog.tearable]
    dsimp only
    rw [hdirs]
    exact Prod.ext rfl (if_pos halive)
  have hmissing : ¬ (cfg.dnsdistAPIKey = "" ∨ cfg.dnsdistConsoleKey = "") := by
    rintro (h | h)
    · exact hapi h
    · exact hconsole h
  refine ⟨{ cfg with listen := if cfg.listen = "" then defaultListen else cfg.listen }, ?_⟩
  unfold serve
  rw [Prog.bind_run, Prog.read]
  dsimp only
  rw [if_neg (by rw [hcert, hkey, hca]; simp), hload]
  dsimp only
  rw [Prog.bind_run, Prog.onlyIf, if_neg hmissing]
  dsimp only [pure]
  rw [hfiles]
  dsimp only [wrap]
  rw [Prog.bind_run, hcall]
  dsimp only
  rw [hca']
  exact congrArg (fun cfg => Except.ok (Except.ok cfg)) (if_neg hmissing)

end Enrolled

/-! ## Runs -/

inductive Event (Key : Type) where
  | attempt (a : Attempt Key)
  /-- The operator removes the configuration directory. -/
  | wipe

def Box.start : Box := ⟨fun _ => none, [], [], true⟩

/-- Every enrollment is a new process. -/
def step (lib : Library) (b : Box) : Event Key → Box
  | .attempt a => { (run lib a.out a.options).final a.script b with alive := true }
  | .wipe => { b with files := fun _ => none, temps := [] }

/-- What a box can be, between two enrollments. -/
inductive Phase where
  | blank
  | stuck
  | enrolled
  deriving DecidableEq, Repr

def phaseStep (lib : Library) : Phase → Event Key → Phase
  | _, .wipe => .blank
  | .blank, .attempt a =>
      if a.Installs lib then if a.Finishes then .enrolled else .stuck else .blank
  | .stuck, .attempt _ => .stuck
  | .enrolled, .attempt _ => .enrolled

/-- The key and the certificate are those of one enrollment. -/
structure Identity (lib : Library) (a : Attempt Key) (p : Prepared) (r : Response)
    (files : File → Option String) : Prop where
  sound : a.Sound lib
  reply : a.reply lib = some (p, r)
  key : files .key = some p.keyPEM
  cert : files .cert = some r.certPEM

/-- What the files of a box are in each phase. -/
def Holds (Key : Type) (lib : Library) (files : File → Option String) : Phase → Prop
  | .blank => files .cert = none ∧ files .agent = none
  | .stuck => ∃ (a : Attempt Key) (p : Prepared) (r : Response),
      Identity lib a p r files ∧ files .agent = none
  | .enrolled => ∃ (a : Attempt Key) (p : Prepared) (r : Response),
      Identity lib a p r files ∧ files .ca = some r.caPEM ∧
        files .agent = some (lib.marshal (a.written p r))

section Runs

variable {lib : Library}

/-- All phases but the first have a certificate. -/
theorem Holds.cert_ne {files : File → Option String} {phase : Phase}
    (h : Holds Key lib files phase) (hphase : phase ≠ .blank) : files .cert ≠ none := by
  cases phase with
  | blank => exact absurd rfl hphase
  | stuck =>
      obtain ⟨a, p, r, hid, -⟩ := h
      rw [hid.cert]
      exact Option.some_ne_none _
  | enrolled =>
      obtain ⟨a, p, r, hid, -⟩ := h
      rw [hid.cert]
      exact Option.some_ne_none _

/-- An enrollment of a box that has a certificate leaves it as it is. -/
theorem step_refused {b : Box} (a : Attempt Key) (hcert : b.files .cert ≠ none) :
    (step lib b (.attempt a)).files = b.files := by
  obtain ⟨e, hrun⟩ := @refuses_of_cert Key lib b hcert a.out a.options a.script
  rw [step, Prog.final, hrun]

/-- Each event brings the files into the next phase. -/
theorem step_holds {b : Box} {phase : Phase} (halive : b.alive = true)
    (h : Holds Key lib b.files phase) (e : Event Key)
    (hsound : ∀ a, e = .attempt a → a.Sound lib) :
    Holds Key lib (step lib b e).files (phaseStep lib phase e) := by
  cases e with
  | wipe => cases phase <;> exact ⟨rfl, rfl⟩
  | attempt a =>
      by_cases hphase : phase = .blank
      · subst hphase
        obtain ⟨hcert, hagent⟩ := h
        have hleaves : a.Leaves lib b.files (step lib b (.attempt a)).files :=
          (Attempt.run_leaves hcert).final (fun _ _ h => h) (fun _ h => h) ⟨halive, rfl, rfl⟩
        rw [phaseStep]
        split
        · next hi =>
            obtain ⟨⟨p, r⟩, hreply⟩ := Option.isSome_iff_exists.mp hi.1
            obtain ⟨hkey, hcert'⟩ := hleaves.installed hi p r hreply
            have hid : Identity lib a p r (step lib b (.attempt a)).files :=
              ⟨hsound a rfl, hreply, hkey, hcert'⟩
            split
            · next hf => exact ⟨a, p, r, hid, hleaves.finished hi hf p r hreply⟩
            · next hf => exact ⟨a, p, r, hid, (hleaves.unfinished hi hf).trans hagent⟩
        · next hi =>
            exact ⟨(hleaves.idle hi _ (by decide)).trans hcert,
              (hleaves.idle hi _ (by decide)).trans hagent⟩
      · rw [step_refused a (h.cert_ne hphase)]
        cases phase with
        | blank => exact absurd rfl hphase
        | stuck => exact h
        | enrolled => exact h

/-- A run of sound events keeps the box alive and its files in step with its phase. -/
theorem after_holds {events : List (Event Key)}
    (hsound : ∀ a, Event.attempt a ∈ events → a.Sound lib) {b : Box} {phase : Phase}
    (halive : b.alive = true) (h : Holds Key lib b.files phase) :
    (after (step lib) b events).alive = true ∧
      Holds Key lib (after (step lib) b events).files (after (phaseStep lib) phase events) := by
  induction events generalizing b phase with
  | nil => exact ⟨halive, h⟩
  | cons e rest ih =>
      have halive' : (step lib b e).alive = true := by
        cases e with
        | attempt a => rfl
        | wipe => exact halive
      refine ih (fun a ha => hsound a (List.mem_cons_of_mem _ ha)) halive' ?_
      exact step_holds halive h e fun a ha => hsound a (ha ▸ List.mem_cons_self)

/-- An accepted answer has a pool that can be read. -/
theorem accept_pool {answer : Except Error (Nat × String)} {r : Response}
    (h : accept lib answer = .ok r) : lib.pool r.caPEM = .ok () := by
  unfold accept at h
  obtain ⟨⟨status, raw⟩, -, h⟩ := bind_ok.mp h
  dsimp only at h
  split at h
  · split at h <;> cases h
  · obtain ⟨reply, -, h⟩ := bind_ok.mp h
    obtain ⟨_, -, h⟩ := bind_ok.mp h
    obtain ⟨u, hpool, h⟩ := bind_ok.mp h
    rw [pure_ok] at h
    exact h ▸ wrap_ok.mp hpool

/-- The CA certificate of a reply makes a pool. -/
theorem Attempt.reply_pool {a : Attempt Key} {p : Prepared} {r : Response}
    (h : a.reply lib = some (p, r)) : lib.pool r.caPEM = .ok () := by
  unfold Attempt.reply at h
  split at h
  · cases h
  · split at h
    · cases h
    · next hr =>
        obtain ⟨rfl, rfl⟩ := Prod.mk.inj (Option.some.inj h)
        exact accept_pool hr

/-- The secrets of an agent are filled in. -/
theorem fillIn_secrets (out : Outside Key) (cfg : Agent) :
    (fillIn out cfg).dnsdistAPIKey ≠ "" ∧ (fillIn out cfg).dnsdistConsoleKey ≠ "" := by
  unfold fillIn
  constructor
  · dsimp only
    split
    · exact out.apiKey_ne
    · assumption
  · dsimp only
    split
    · exact out.consoleKey_ne
    · assumption

/-- What a box does in each phase. -/
def Behaves (Key : Type) (lib : Library) (b : Box) : Phase → Prop
  | .blank => NeverStarts Key lib b ∧ b.files .cert = none
  | .stuck => NeverStarts Key lib b ∧ Refuses Key lib b
  | .enrolled => Starts Key lib b ∧ Refuses Key lib b

/-- **Which enrollments can fail without harm.**  After every run of enrollments, in which calls
may fail and processes may be killed anywhere, the agent starts exactly if the last enrollment
that installed a certificate also finished, and a box with a certificate cannot be enrolled. -/
theorem box_settles (events : List (Event Key))
    (hsound : ∀ a, Event.attempt a ∈ events → a.Sound lib) :
    Behaves Key lib (after (step lib) Box.start events)
      (after (phaseStep lib) .blank events) := by
  obtain ⟨halive, h⟩ := @after_holds Key lib events hsound Box.start .blank rfl ⟨rfl, rfl⟩
  have hrefuses : _ → Refuses Key lib _ := fun hphase => refuses_of_cert (h.cert_ne hphase)
  cases hphase : after (phaseStep lib) .blank events with
  | blank =>
      rw [hphase] at h
      exact ⟨neverStarts_of_missing (.inl h.1), h.1⟩
  | stuck =>
      rw [hphase] at h
      obtain ⟨a, p, r, hid, hagent⟩ := h
      exact ⟨neverStarts_of_missing (.inr hagent), hrefuses (by rw [hphase]; decide)⟩
  | enrolled =>
      rw [hphase] at h
      obtain ⟨a, p, r, hid, hca, hagent⟩ := h
      obtain ⟨hpair, hread⟩ := hid.sound (p, r) hid.reply
      obtain ⟨hapi, hconsole⟩ := fillIn_secrets a.out (settings a.options p r)
      exact ⟨starts_of_files halive hid.cert hid.key hca hagent hpair
        (Attempt.reply_pool hid.reply) hread hapi hconsole, hrefuses (by rw [hphase]; decide)⟩

end Runs

/-! An enrollment that is cut short after the certificate, and another one. -/

def boxConfig : Agent where
  listen := "0.0.0.0:8443"
  name := "box"
  agentID := 1
  controlPlaneURL := "https://panel"
  address := "10.0.0.5"
  dnsdistAPIKey := "a2V5"
  dnsdistConsoleKey := "a2V5"
  createdAt := "2026-01-01T00:00:00Z"

def boxReply : Response := ⟨1, "box", "certificate for key", "ca", "2027-01-01T00:00:00Z"⟩

def boxLibrary : Library where
  parseURL _ := some ⟨"https", "panel", "panel", "https://panel"⟩
  parseCert _ := .ok ()
  pool _ := .ok ()
  x509KeyPair cert key := cert = "certificate for " ++ key
  decode _ := .ok boxReply
  decodeDetail _ := none
  marshal _ := "\x7b\"listen\":\"0.0.0.0:8443\"\x7d"
  unmarshal _ := .ok boxConfig

theorem boxKey_ne : "a2V5" ≠ "" := by decide

def boxOutside : Outside Unit where
  hostname := "box"
  os := "linux"
  arch := "amd64"
  localAddressFor _ := .ok "10.0.0.5"
  generateKey := .ok ()
  csr _ _ _ := .ok "request"
  encodeKey _ := .ok "key"
  send _ _ := .ok (200, "reply")
  apiKey := "a2V5"
  consoleKey := "a2V5"
  now := "2026-01-01T00:00:00Z"
  cut _ := ""
  apiKey_ne := boxKey_ne
  consoleKey_ne := boxKey_ne

def boxOptions : Options := ⟨"https://panel/", "token", "", "", "", "1.0.0"⟩

/-- The disk is full when the CA is to be written. -/
def cutShort : Attempt Unit :=
  ⟨boxOutside, boxOptions, failingAt (.call .ca .write)⟩

def another : Attempt Unit := ⟨boxOutside, boxOptions, allDone⟩

/-- A box that was cut short after the certificate neither starts nor enrolls again. -/
theorem sticks_after_cut :
    NeverStarts Unit boxLibrary
        (after (step boxLibrary) Box.start [.attempt cutShort, .attempt another]) ∧
      Refuses Unit boxLibrary
        (after (step boxLibrary) Box.start [.attempt cutShort, .attempt another]) := by
  have hphase : after (phaseStep boxLibrary) .blank [.attempt cutShort, .attempt another] =
      .stuck := by decide +kernel
  have hsound : cutShort.Sound boxLibrary ∧ another.Sound boxLibrary := by decide +kernel
  have hbehaves := @box_settles Unit boxLibrary [.attempt cutShort, .attempt another]
    fun a ha => ?_
  · rw [hphase] at hbehaves
    exact hbehaves
  · rcases List.mem_pair.mp ha with h | h
    · exact Event.attempt.inj h ▸ hsound.1
    · exact Event.attempt.inj h ▸ hsound.2

end AdguardAdmin.EnrolledFiles
