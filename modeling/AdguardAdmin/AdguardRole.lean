import AdguardAdmin.FaultyPrograms
import AdguardAdmin.AdguardSpec
import Mathlib.Logic.Function.Basic
/-!
# Converging AdGuard Home

AdGuard runs as a container on the host's network or as a systemd unit, and takes its
listen addresses from `AdGuardHome.yaml` when it starts: the container from its volume,
the unit from its directory.  Without the file it starts its first-run wizard.  A
converge brings the instance up, answers the wizard or checks the credentials, and
edits the file when it names other addresses than the spec does, with the instance
stopped.

Whether AdGuard is up is only ever asked on 127.0.0.1, at a port.  A recreated container
leaves its predecessor, renamed, until that port answers; and the instance of the other
install method is never touched.
-/

namespace AdguardAdmin.Adguard

open Faulty GoText

/-! ## The host -/

/-- Names and passwords; no users at all means that nobody is asked. -/
abbrev Users := List (String × String)

def accepts (users : Users) (username password : String) : Bool :=
  users = [] || (username ≠ "" && (username, password) ∈ users)

/-- What a reader finds in the place of `AdGuardHome.yaml`. -/
inductive Yaml where
  | missing
  | garbled
  | conf (binds : Binds) (users : Users)
  deriving DecidableEq, Repr

inductive Process where
  | down
  | wizard
  | configured (binds : Binds) (users : Users)
  deriving DecidableEq, Repr

/-- What AdGuard does when it starts on a file. -/
def Process.startedOn : Yaml → Process
  | .missing => .wizard
  | .garbled => .down
  | .conf binds users => .configured binds users

/-- The port at which a server bound to `address` answers on 127.0.0.1. -/
def loopbackPort (address : String) : Option Int := do
  let (host, port) ← splitHostPort address
  let ip ← parseIP host
  if isUnspecified ip ∨ parseIP "127.0.0.1" = some ip then atoi port else none

def Process.webPort : Process → Option Int
  | .down => none
  | .wizard => some 3000
  | .configured binds _ => loopbackPort binds.httpAddress

/-- An instance of AdGuard.  `kept` says that docker or systemd has it running, and
starts its process again whenever it exits; `published` is the host's port that docker
maps to port 3000 of a bridged container. -/
structure Instance where
  published : Option Int
  kept : Bool
  process : Process
  deriving DecidableEq, Repr

/-- The host's port at which an instance answers. -/
def Instance.hostPort (i : Instance) : Option Int :=
  match i.published with
  | none => i.process.webPort
  | some port => if i.process.webPort = some 3000 then some port else none

def Instance.start (i : Instance) : Instance := { i with kept := true }

def Instance.stop (i : Instance) : Instance := { i with kept := false, process := .down }

def Instance.exit (i : Instance) : Instance := { i with process := .down }

def Instance.startOn (y : Yaml) (i : Instance) : Instance := { i with process := .startedOn y }

structure Container extends Instance where
  image : String
  hash : String
  deriving DecidableEq, Repr

/-- Where an instance can live: the container `adguardhome`, its predecessor
`adguardhome-prev`, and the unit. -/
inductive Slot where
  | container
  | previous
  | unit
  deriving DecidableEq, Repr

/-- Where a file can live: the volume both containers mount, and the unit's directory. -/
inductive Home where
  | volume
  | native
  deriving DecidableEq, Repr

inductive Stir where
  | comesUp (slot : Slot)
  | exits (slot : Slot)
  deriving DecidableEq, Repr

def Slot.home : Slot → Home
  | .container => .volume
  | .previous => .volume
  | .unit => .native

structure Host where
  container : Option Container
  previous : Option Container
  unit : Option Instance
  yaml : Home → Yaml

def Container.edit (g : Instance → Instance) (c : Container) : Container :=
  { c with toInstance := g c.toInstance }

namespace Host

variable (h : Host)

def inst : Slot → Option Instance
  | .container => h.container.map (·.toInstance)
  | .previous => h.previous.map (·.toInstance)
  | .unit => h.unit

/-- Change the instance in a slot, if there is one. -/
def edit (g : Instance → Instance) : Slot → Host
  | .container => { h with container := h.container.map (Container.edit g) }
  | .previous => { h with previous := h.previous.map (Container.edit g) }
  | .unit => { h with unit := h.unit.map g }

def setYaml (home : Home) (y : Yaml) : Host :=
  { h with yaml := Function.update h.yaml home y }

def process (slot : Slot) : Process := ((h.inst slot).map (·.process)).getD .down

/-- The slot whose instance answers at a port. -/
def answerer (port : Int) : Option Slot :=
  [Slot.container, .previous, .unit].find? fun slot => (h.inst slot).any (·.hostPort = some port)

/-- A kept instance whose process is down comes up, unless another one has its port. -/
def comesUp (slot : Slot) : Host :=
  h.edit (fun i =>
    let up := i.startOn (h.yaml slot.home)
    let free := (up.hostPort.bind h.answerer).isNone
    if i.kept = true ∧ i.process = .down ∧ free = true then up else i) slot

def exits (slot : Slot) : Host := h.edit Instance.exit slot

/-- What a process does by itself: it comes up or it exits. -/
def stirred : Stir → Host
  | .comesUp slot => h.comesUp slot
  | .exits slot => h.exits slot

def removeContainer : Host := { h with container := none }

def removePrevious : Host := { h with previous := none }

def rename : Host := { h with container := none, previous := h.container }

def renameBack : Host :=
  if h.container = none then { h with container := h.previous, previous := none } else h

/-- The native installer registers the unit and starts it. -/
def install (kept : Bool) : Host :=
  match h.unit with
  | some _ => h
  | none => { h with unit := some ⟨none, kept, .down⟩ }

end Host

/-- `RunArgs`: a container on the host's network publishes nothing. -/
def runArgs (s : Spec) (hash : String) (kept : Bool) : Container where
  published := if s.network = "bridge" then some s.webPort else none
  kept := kept
  process := .down
  image := s.image
  hash := hash

/-! ## Waiting and asking -/

/-- The two times a converge may talk to AdGuard: before and after it edits the file. -/
inductive Round where
  | first
  | second
  deriving DecidableEq, Repr

inductive Wait where
  | recreated
  | web (r : Round)
  | configured (r : Round)
  | verify (r : Round)
  deriving DecidableEq, Repr

inductive Point where
  | docker
  | inspect
  | run
  | start
  | stop
  | restart
  | removeLeftover
  | rename
  | stopPrevious
  | removePrevious
  | rollbackRemove
  | rollbackRename
  | rollbackStart
  | volumeInspect
  | systemd
  | statBinary
  | fetch
  | createTemp
  | installer
  | statYaml
  | startUnit
  | stopUnit
  | enableNow
  | readYaml
  | rereadYaml
  | writeYaml
  | answers (w : Wait)
  | getAddresses (r : Round)
  | configureAccepted (r : Round)
  | configure (r : Round)
  | status (r : Round)
  | pull
  | imageMoved
  | update
  | removeContainer
  | removeVolumes
  | removeYaml
  deriving DecidableEq, Repr

/-- What a pass meets besides the failures of its own steps: what processes do by
themselves during each wait, and what a write that breaks off leaves in the file. -/
structure Box where
  stirs : Wait → List Stir
  torn : Yaml

def settle (box : Box) (w : Wait) : Prog Point Host Unit :=
  Prog.update fun h => (box.stirs w).foldl Host.stirred h

/-- Wait until something answers on one of the ports. -/
def waitWebAny (box : Box) (w : Wait) (ports : List Int) : Prog Point Host Unit := do
  settle box w
  Prog.command (.answers w) id
  let answered ← Prog.read fun h : Host => ports.any fun port => (h.answerer port).isSome
  Prog.refuseIf (answered = false) "AdGuard Home did not answer"

def waitWeb (box : Box) (w : Wait) (port : Int) : Prog Point Host Unit := waitWebAny box w [port]

/-- The slot whose wizard answers at a port. -/
def Host.wizardAt (h : Host) (port : Int) : Option Slot :=
  (h.answerer port).filter fun slot => h.process slot = .wizard

/-- The wizard writes what it is told to the file and restarts on it. -/
def Host.configure (h : Host) (slot : Slot) (body : ConfigureBody) : Host :=
  (h.setYaml slot.home (.conf body.binds [(body.username, body.password)])).edit Instance.exit slot

/-- Answer a wizard that was found.  A status of 400 or more is an error; a request that is lost is not. -/
def runWizard (box : Box) (r : Round) (finalPort : Int) (body : ConfigureBody) :
    Option Slot → Prog Point Host Unit
  | none => pure ()
  | some slot => do
      Prog.command (.configureAccepted r) id
      Prog.attempt (.configure r) fun h => h.configure slot body
      waitWeb box (.configured r) finalPort

/-- The users of the configured instance that answers at a port. -/
def Host.usersAt (h : Host) (port : Int) : Option Users :=
  (h.answerer port).bind fun slot =>
    match h.process slot with
    | .configured _ users => some users
    | _ => none

/-- Ask for the status with the spec's credentials until it is answered or refused. -/
def verify (box : Box) (r : Round) (s : Spec) (port : Int) : Prog Point Host Unit := do
  settle box (.verify r)
  Prog.command (.status r) id
  let users ← Prog.read fun h : Host => h.usersAt port
  Prog.refuseIf (users = none) "AdGuard Home did not become ready"
  Prog.refuseIf (users.any (accepts · s.adminUsername s.adminPassword) = false)
    "credentials rejected; the instance was configured before this agent managed it"

def wizardOrVerify (box : Box) (r : Round) (s : Spec) (setupPort finalPort : Int)
    (body : ConfigureBody) : Prog Point Host Unit := do
  let asked ← Prog.ask (.getAddresses r)
  let found ← Prog.read fun h : Host => h.wizardAt setupPort
  runWizard box r finalPort body (if asked = .done then found else none)
  verify box r s finalPort

/-! ## The file -/

/-- `os.ReadFile` and `aghyaml.Read`. -/
def readYaml (home : Home) : Prog Point Host Binds := do
  Prog.command .readYaml id
  match ← Prog.read fun h : Host => h.yaml home with
  | .missing => Prog.refuse "read AdGuardHome.yaml: no such file or directory"
  | .garbled => Prog.refuse "read AdGuardHome.yaml: not a settings file"
  | .conf binds _ => return binds

/-- `aghyaml.ApplyFile`: the settings are exchanged, the rest of the file stays.  A write
that breaks off leaves some other file, `torn`. -/
def applyFile (home : Home) (want : Binds) (torn : Yaml) : Prog Point Host Unit := do
  Prog.command .rereadYaml id
  match ← Prog.read fun h : Host => h.yaml home with
  | .missing => Prog.refuse "open AdGuardHome.yaml: no such file or directory"
  | .garbled => Prog.refuse "AdGuardHome.yaml is not a mapping document"
  | .conf _ users =>
      Prog.tearable .writeYaml (fun h => h.setYaml home (.conf want users))
        fun h => h.setYaml home torn

/-! ## Docker -/

/-- `ContainerState`: a failing `docker inspect` reads as no container. -/
def containerState : Prog Point Host (Option Container) := do
  let answer ← Prog.ask .inspect
  Prog.refuseIf (answer = .torn) "parse docker inspect adguardhome"
  let container ← Prog.read fun h : Host => h.container
  return if answer = .done then container else none

/-- `docker run` fails when the name is taken, and may leave a container behind that did
not start. -/
def dockerRun (s : Spec) (hash : String) : Prog Point Host Unit := do
  let taken ← Prog.read fun h : Host => h.container.isSome
  Prog.refuseIf (taken = true) "Conflict. The container name \"/adguardhome\" is already in use"
  Prog.tearable .run (fun h => { h with container := some (runArgs s hash true) })
    fun h => { h with container := some (runArgs s hash false) }

def rollback : Prog Point Host Unit := do
  Prog.attempt .rollbackRemove Host.removeContainer
  Prog.attempt .rollbackRename Host.renameBack
  Prog.attempt .rollbackStart fun h => h.edit Instance.start .container
  Prog.refuse "recreate failed, previous container restored"

/-- Swap the container, keeping the old one until the new one answers. -/
def recreate (s : Spec) (hash : String) (box : Box) : Prog Point Host Unit := do
  Prog.attempt .removeLeftover Host.removePrevious
  let leftover ← Prog.read fun h : Host => h.previous.isSome
  Prog.refuseIf (leftover = true)
    "Conflict. The container name \"/adguardhome-prev\" is already in use"
  Prog.tearable .rename Host.rename Host.rename
  Prog.attempt .stopPrevious fun h => h.edit Instance.stop .previous
  let result ← Prog.caught do
    dockerRun s hash
    waitWeb box .recreated s.webPort
  match result with
  | .error _ => rollback
  | .ok _ => Prog.attempt .removePrevious Host.removePrevious

/-- Whether the container was made for another spec. -/
def Outdated (s : Spec) (hash : String) (c : Container) : Prop :=
  c.hash ≠ hash ∨ c.image ≠ s.image

instance (s : Spec) (hash : String) (c : Container) : Decidable (Outdated s hash c) :=
  inferInstanceAs (Decidable (_ ∨ _))

/-- Create, recreate or start the container, whichever the state asks for. -/
def bringContainerUp (s : Spec) (hash : String) (box : Box) :
    Option Container → Prog Point Host Unit
  | none => dockerRun s hash
  | some c =>
      if Outdated s hash c then recreate s hash box
      else
        Prog.onlyIf (c.kept = false)
          (Prog.tearable .start (fun h => h.edit Instance.start .container)
            fun h => h.edit Instance.start .container)

/-- Finish a container on the host's network. -/
def convergeHostNetwork (s : Spec) (box : Box) : Prog Point Host Unit := do
  waitWebAny box (.web .first) [3000, s.webPort]
  wizardOrVerify box .first s 3000 s.webPort (hostBody s)
  Prog.command .volumeInspect id
  let current ← readYaml .volume
  Prog.onlyIf (sameBinds current s.binds = false) do
    Prog.tearable .stop (fun h => h.edit Instance.stop .container)
      fun h => h.edit Instance.stop .container
    applyFile .volume s.binds box.torn
    Prog.tearable .restart (fun h => h.edit Instance.start .container)
      fun h => h.edit Instance.start .container
    waitWeb box (.web .second) s.webPort
    wizardOrVerify box .second s s.webPort s.webPort (hostBody s)

def convergeDocker (s : Spec) (hash : String) (box : Box) : Prog Point Host Unit := do
  Prog.command .docker id
  let c ← containerState
  if s.enabled then do
    bringContainerUp s hash box c
    if s.network = "bridge" then do
      waitWeb box (.web .first) s.webPort
      wizardOrVerify box .first s s.webPort s.webPort (bridgeBody s)
    else convergeHostNetwork s box
  else
    Prog.onlyIf (c.any (·.kept) = true)
      (Prog.tearable .stop (fun h => h.edit Instance.stop .container)
        fun h => h.edit Instance.stop .container)

/-! ## The native install -/

def installBare : Prog Point Host Unit := do
  Prog.command .fetch id
  Prog.command .createTemp id
  Prog.tearable .installer (Host.install · true) (Host.install · false)

/-- The first run: the wizard listens on port 3000 until it is answered. -/
def firstRun (s : Spec) (box : Box) : Prog Point Host Unit := do
  Prog.tearable .startUnit (fun h => h.edit Instance.start .unit)
    fun h => h.edit Instance.start .unit
  waitWeb box (.web .first) 3000
  wizardOrVerify box .first s 3000 s.webPort (hostBody s)

def convergeUnit (s : Spec) (box : Box) : Prog Point Host Unit := do
  let stat ← Prog.ask .statYaml
  let file ← Prog.read fun h : Host => h.yaml .native
  Prog.onlyIf (stat ≠ .done ∨ file = .missing) (firstRun s box)
  let current ← readYaml .native
  Prog.onlyIf (sameBinds current s.binds = false) do
    Prog.tearable .stopUnit (fun h => h.edit Instance.stop .unit)
      fun h => h.edit Instance.stop .unit
    applyFile .native s.binds box.torn
  Prog.tearable .enableNow (fun h => h.edit Instance.start .unit)
    fun h => h.edit Instance.start .unit
  waitWeb box (.web .second) s.webPort
  wizardOrVerify box .second s s.webPort s.webPort (hostBody s)

def convergeBare (s : Spec) (box : Box) : Prog Point Host Unit := do
  Prog.command .systemd id
  let stat ← Prog.ask .statBinary
  let installed ← Prog.read fun h : Host => h.unit.isSome
  if s.enabled then do
    Prog.onlyIf (stat ≠ .done ∨ installed = false) installBare
    convergeUnit s box
  else
    Prog.onlyIf (stat = .done ∧ installed = true)
      (Prog.tearable .stopUnit (fun h => h.edit Instance.stop .unit)
        fun h => h.edit Instance.stop .unit)

def converge (s : Spec) (hash : String) (box : Box) : Prog Point Host Unit :=
  if s.installMethod = "docker" then convergeDocker s hash box else convergeBare s box

/-! ## Update and reset -/

/-- A native AdGuard updates itself: whatever answers at the web port restarts. -/
def updateBare (s : Spec) : Prog Point Host Unit :=
  Prog.attempt .update fun h => ((h.answerer s.webPort).map h.exits).getD h

/-- Pull the image and recreate the container when the digest moved. -/
def updateDocker (s : Spec) (hash : String) (box : Box) : Prog Point Host Unit := do
  Prog.command .pull id
  let c ← containerState
  let moved ← Prog.ask .imageMoved
  Prog.onlyIf (c.isSome = true ∧ moved = .done) (recreate s hash box)

def update (s : Spec) (hash : String) (box : Box) : Prog Point Host Unit :=
  if s.installMethod = "bare_metal" then updateBare s else updateDocker s hash box

/-- Wipe the install.  A volume that a container mounts cannot be removed. -/
def reset (s : Spec) : Prog Point Host Unit :=
  if s.installMethod = "docker" then do
    Prog.command .docker id
    Prog.attempt .removeContainer Host.removeContainer
    Prog.attempt .removePrevious Host.removePrevious
    let mounted ← Prog.read fun h : Host => h.container.isSome || h.previous.isSome
    Prog.refuseIf (mounted = true) "volume is in use"
    Prog.tearable .removeVolumes (·.setYaml .volume .missing) (·.setYaml .volume .missing)
  else do
    Prog.attempt .stopUnit fun h => h.edit Instance.stop .unit
    Prog.tearable .removeYaml (·.setYaml .native .missing) (·.setYaml .native .missing)

end AdguardAdmin.Adguard
