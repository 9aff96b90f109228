import AdguardAdmin.RunLaws
import AdguardAdmin.FaultyPrograms
import AdguardAdmin.DnsdistSpec
/-!
# Converging dnsdist

A converge writes the configuration file before it decides whether to restart,
and decides by the hash recorded at the end of the last successful pass.  File,
record and process can drift apart: the record keeps the hash of a spec that a
later, failed pass has already replaced in the process, and a hostname can
resolve differently under an unchanged hash.

Standing down goes by the install method of the disabled spec, not by what is
running.

* `loaded_iff_confirmed` — the exact condition under which a successful converge
  leaves the text it rendered running;
* `stopped_step_iff`, `otherDown_step_iff` — the same for a disabled spec being stopped and
  for the other install method's instance being down.
-/

namespace AdguardAdmin.Dnsdist

open Faulty

/-! ## The host -/

/-- The container named `dnsdist`.  `loaded` is the file it read when it was last
started; `byRole` says, for the statements only, that a converge started it. -/
structure Container where
  image : String
  running : Bool
  loaded : String
  byRole : Bool
  deriving DecidableEq, Repr

structure Host where
  confFile : Option String
  bareConf : Option String
  appliedHash : String
  appliedImage : String
  container : Option Container
  unit : Option String
  unitByRole : Bool
  deriving DecidableEq, Repr

/-- What a converge finds on the box: docker, systemd, the program on the path, what
the package brings (a configuration file, and a service that its installation may
start), the resolver's answers, and whether a process started now stays up. -/
structure Box where
  docker : Bool
  systemd : Bool
  program : Bool
  packagedConf : Option String
  packageStarts : Bool
  resolve : Resolver
  comesUp : Bool

inductive Point where
  | inspect
  | checkConfig
  | dockerRun
  | dockerRemove
  | dockerRestart
  | dockerStart
  | dockerStop
  | installPackage
  | writeConf
  | writeBareConf
  | enable
  | restart
  | stopUnit
  | waitApi
  | writeApplied
  deriving DecidableEq, Repr

/-- The configuration of the running container. -/
def Host.containerConfig (h : Host) : Option String :=
  h.container.bind fun c => if c.running then some c.loaded else none

def Host.runContainer (image : String) (up : Bool) (h : Host) : Host :=
  { h with container := some ⟨image, up, h.confFile.getD "", true⟩ }

def Host.startContainer (up : Bool) (h : Host) : Host :=
  { h with container := h.container.map fun c => ⟨c.image, up, h.confFile.getD "", true⟩ }

def Host.stopContainer (h : Host) : Host :=
  { h with container := h.container.map fun c => { c with running := false } }

def Host.removeContainer (h : Host) : Host := { h with container := none }

def Host.startUnit (up : Bool) (h : Host) : Host :=
  { h with unit := if up then some (h.bareConf.getD "") else none, unitByRole := true }

def Host.enableNow (up : Bool) (h : Host) : Host := if h.unit.isSome then h else h.startUnit up

def Host.stopUnit (h : Host) : Host := { h with unit := none }

/-- The package keeps a configuration file that is there. -/
def Host.installPackage (box : Box) (h : Host) : Host :=
  let h := { h with bareConf := h.bareConf.or box.packagedConf }
  if box.packageStarts then h.enableNow true else h

/-! ## Converge -/

/-- `ContainerState`: a failing `docker inspect` reads as no container, output
that does not parse is an error. -/
def containerState : Prog Point Host (Option Container) := do
  let answer ← Prog.ask .inspect
  Prog.refuseIf (answer = .torn) "parse docker inspect dnsdist"
  let container ← Prog.read fun h : Host => h.container
  return if answer = .done then container else none

/-- `docker run` fails when the name is taken, and may leave a container behind
that did not start. -/
def dockerRun (image : String) (up : Bool) : Prog Point Host Unit := do
  let taken ← Prog.read fun h : Host => h.container.isSome
  Prog.refuseIf (taken = true) "Conflict. The container name \"/dnsdist\" is already in use"
  Prog.tearable .dockerRun (Host.runContainer image up) (Host.runContainer image false)

/-- Wait for the local API, which any running instance answers. -/
def waitApi : Prog Point Host Unit := do
  Prog.command .waitApi id
  let answered ← Prog.read fun h : Host => h.containerConfig.isSome || h.unit.isSome
  Prog.refuseIf (answered = false) "dnsdist API did not answer"

/-- Recreate, restart or start the container, whichever the state asks for. -/
def bringContainerUp (s : Spec) (up changed : Bool) : Option Container → Prog Point Host Unit
  | none => dockerRun s.image up
  | some c =>
      if c.image ≠ s.image then do
        Prog.tearable .dockerRemove Host.removeContainer Host.removeContainer
        dockerRun s.image up
      else if changed then
        Prog.tearable .dockerRestart (Host.startContainer up) Host.stopContainer
      else
        Prog.onlyIf (c.running = false) (Prog.command .dockerStart (Host.startContainer up))

def convergeDocker (s : Spec) (hash lua : String) (box : Box) : Prog Point Host Unit := do
  Prog.refuseIf (box.docker = false) "docker is not available on this host"
  let prev ← Prog.read fun h : Host => h.appliedHash
  Prog.command .writeConf fun h => { h with confFile := some lua }
  let c ← containerState
  Prog.onlyIf (prev ≠ hash ∨ c = none) (Prog.command .checkConfig id)
  bringContainerUp s box.comesUp (prev ≠ hash) c
  waitApi

def convergeBare (hash lua : String) (box : Box) : Prog Point Host Unit := do
  Prog.refuseIf (box.systemd = false) "a native dnsdist install needs systemd"
  let prev ← Prog.read fun h : Host => h.appliedHash
  Prog.onlyIf (box.program = false)
    (Prog.tearable .installPackage (Host.installPackage box) (Host.installPackage box))
  Prog.command .writeConf fun h => { h with confFile := some lua }
  Prog.command .writeBareConf fun h => { h with bareConf := some lua }
  Prog.command .checkConfig id
  Prog.tearable .enable (Host.enableNow box.comesUp) (Host.enableNow box.comesUp)
  Prog.onlyIf (prev ≠ hash) (Prog.tearable .restart (Host.startUnit box.comesUp) Host.stopUnit)
  waitApi

/-- Stop the instance of the spec's install method.  An inspection that fails and
a `systemctl stop` that fails are both ignored. -/
def stop (s : Spec) (box : Box) : Prog Point Host Unit :=
  if s.installMethod = "docker" then do
    let answer ← Prog.ask .inspect
    let running ← Prog.read fun h : Host => h.containerConfig.isSome
    Prog.onlyIf (answer = .done ∧ running = true) (Prog.command .dockerStop Host.stopContainer)
  else Prog.onlyIf (box.systemd = true) (Prog.attempt .stopUnit Host.stopUnit)

/-- Bring dnsdist to an enabled spec. -/
def bringUp (keys : Keys) (s : Spec) (hash : String) (box : Box) : Prog Point Host Unit :=
  match render keys box.resolve s hash with
  | none => Prog.refuse "backend address does not resolve"
  | some lua => do
      if s.installMethod = "docker" then convergeDocker s hash lua box
      else convergeBare hash lua box
      Prog.command .writeApplied fun h => { h with appliedHash := hash, appliedImage := s.image }

def converge (keys : Keys) (s : Spec) (hash : String) (box : Box) : Prog Point Host Unit :=
  if s.enabled then bringUp keys s hash box else stop s box

/-! ## What a successful pass did -/

/-- The state of the container is read, unless the command is torn; a failure reads as none. -/
theorem containerState_ok {f : Script Point} {h t : Host} {c : Option Container} :
    containerState.run f h = (.ok c, t) ↔
      f .inspect ≠ .torn ∧ c = (if f .inspect = .done then h.container else none) ∧ t = h := by
  simp only [containerState, Prog.bind_ok, Prog.ask_ok, Prog.refuseIf_ok, Prog.read_ok,
    Prog.pure_ok, exists_const, exists_and_left, exists_eq_left, and_assoc, ne_eq]

/-- A container is run where there is none. -/
theorem dockerRun_ok {image : String} {up : Bool} {f : Script Point} {h t : Host} :
    (dockerRun image up).run f h = (.ok (), t) ↔
      h.container = none ∧ f .dockerRun = .done ∧ t = h.runContainer image up := by
  simp only [dockerRun, Prog.bind_ok, Prog.read_ok, Prog.refuseIf_ok, Prog.tearable_ok,
    exists_const, exists_and_left, exists_eq_left, and_assoc]
  simp

/-- Waiting changes nothing. -/
theorem waitApi_ok {f : Script Point} {h t : Host} (hrun : waitApi.run f h = (.ok (), t)) :
    t = h := by
  simp only [waitApi, Prog.bind_ok, Prog.command_ok, Prog.read_ok, Prog.refuseIf_ok, exists_const,
    exists_and_left, exists_eq_left, and_assoc, id_eq] at hrun
  exact hrun.2.2

/-- The host with the package installed, as a pass on a native spec goes on from. -/
def Host.withPackage (box : Box) (h : Host) : Host :=
  if box.program then h else h.installPackage box

/-- The installation changes neither the record nor the container. -/
theorem withPackage_rest (box : Box) (h : Host) :
    (h.withPackage box).appliedHash = h.appliedHash ∧
      (h.withPackage box).container = h.container ∧ (h.withPackage box).confFile = h.confFile := by
  unfold Host.withPackage Host.installPackage Host.enableNow
  dsimp only
  split
  · exact ⟨rfl, rfl, rfl⟩
  · split
    · split <;> exact ⟨rfl, rfl, rfl⟩
    · exact ⟨rfl, rfl, rfl⟩

/-- The pass leaves a running container of the right image alone. -/
def SkipsContainer (s : Spec) (hash : String) (h : Host) : Prop :=
  ∃ c ∈ h.container, c.image = s.image ∧ h.appliedHash = hash ∧ c.running = true

/-- The pass leaves a running unit alone. -/
def SkipsUnit (hash : String) (h : Host) : Prop := h.appliedHash = hash ∧ h.unit.isSome

instance (s : Spec) (hash : String) (h : Host) : Decidable (SkipsContainer s hash h) := by
  unfold SkipsContainer
  infer_instance

instance (hash : String) (h : Host) : Decidable (SkipsUnit hash h) :=
  inferInstanceAs (Decidable (_ ∧ _))

/-- Bringing the container up either leaves a running container of the right image
alone or has it load the file as it stands. -/
theorem bringContainerUp_ok {s : Spec} {up changed : Bool} {f : Script Point} {h t : Host}
    {c : Option Container} (hc : c = none ∨ c = h.container)
    (hrun : (bringContainerUp s up changed c).run f h = (.ok (), t)) :
    t.unit = h.unit ∧ t.containerConfig =
      if ∃ c ∈ h.container, c.image = s.image ∧ changed = false ∧ c.running = true then
        h.containerConfig
      else if up then some (h.confFile.getD "") else none := by
  cases c with
  | none =>
      obtain ⟨hnone, -, rfl⟩ := dockerRun_ok.mp hrun
      simp [Host.runContainer, Host.containerConfig, hnone]
  | some c =>
      have hcontainer : h.container = some c := by simpa [eq_comm] using hc
      by_cases himage : c.image = s.image
      · simp only [bringContainerUp, ne_eq, himage, not_true_eq_false, if_false] at hrun
        cases changed with
        | true =>
            rw [if_pos rfl] at hrun
            obtain ⟨-, rfl⟩ := Prog.tearable_ok.mp hrun
            simp [Host.startContainer, Host.containerConfig, hcontainer]
        | false =>
            rw [if_neg (by decide)] at hrun
            rcases Prog.onlyIf_ok.mp hrun with ⟨hstopped, hstart⟩ | ⟨hrunning, rfl⟩
            · obtain ⟨-, rfl⟩ := Prog.command_ok.mp hstart
              simp [Host.startContainer, Host.containerConfig, hcontainer, hstopped]
            · simp [hcontainer, himage, hrunning]
      · simp only [bringContainerUp, ne_eq, himage, not_false_eq_true, if_true] at hrun
        obtain ⟨_, u, hremove, hrun⟩ := Prog.bind_ok.mp hrun
        obtain ⟨-, rfl⟩ := Prog.tearable_ok.mp hremove
        obtain ⟨-, -, rfl⟩ := dockerRun_ok.mp hrun
        simp [Host.removeContainer, Host.runContainer, Host.containerConfig, hcontainer, himage]

/-- What a converge with docker leaves when it ends well. -/
theorem convergeDocker_ok {s : Spec} {hash lua : String} {box : Box} {f : Script Point}
    {h t : Host} (hrun : (convergeDocker s hash lua box).run f h = (.ok (), t)) :
    t.unit = h.unit ∧ t.containerConfig =
      if SkipsContainer s hash h then h.containerConfig
      else if box.comesUp then some lua else none := by
  simp only [convergeDocker, Prog.bind_ok, Prog.refuseIf_ok, Prog.read_ok, Prog.command_ok,
    Prog.onlyIf_ok, containerState_ok, exists_const, exists_and_left, exists_eq_left, and_assoc,
    id_eq] at hrun
  obtain ⟨-, -, -, u, hcheck, _, v, hup, hwait⟩ := hrun
  have hu : u = { h with confFile := some lua } := by
    rcases hcheck with ⟨-, -, rfl⟩ | ⟨-, rfl⟩ <;> rfl
  have hseen : (if f .inspect = .done then h.container else none) = none ∨
      (if f .inspect = .done then h.container else none) = u.container := by
    rw [hu]
    split
    · exact Or.inr rfl
    · exact Or.inl rfl
  obtain ⟨hunit, hconfig⟩ := bringContainerUp_ok hseen hup
  rw [waitApi_ok hwait, hunit, hconfig, hu]
  simp [SkipsContainer, Host.containerConfig]

/-- The unit is judged as the installation of the package leaves it. -/
theorem convergeBare_ok {hash lua : String} {box : Box} {f : Script Point} {h t : Host}
    (hrun : (convergeBare hash lua box).run f h = (.ok (), t)) :
    t.container = h.container ∧ t.unit =
      if SkipsUnit hash (h.withPackage box) then (h.withPackage box).unit
      else if box.comesUp then some lua else none := by
  simp only [convergeBare, Prog.bind_ok, Prog.refuseIf_ok, Prog.read_ok, Prog.command_ok,
    Prog.onlyIf_ok, Prog.tearable_ok, exists_const, exists_and_left, exists_eq_left, and_assoc,
    id_eq] at hrun
  obtain ⟨-, u, hinstall, -, -, -, -, v, hrestart, hwait⟩ := hrun
  have hu : u = h.withPackage box := by
    rcases hinstall with ⟨hmissing, -, rfl⟩ | ⟨hthere, rfl⟩
    · rw [Host.withPackage, if_neg (by simp [hmissing])]
    · rw [Host.withPackage, if_pos (by simpa using hthere)]
  obtain ⟨hhash', hcontainer, -⟩ := withPackage_rest box h
  rw [← hu] at hhash' hcontainer ⊢
  rw [waitApi_ok hwait, ← hcontainer]
  rw [← hhash'] at hrestart
  rcases hrestart with ⟨hchanged, -, rfl⟩ | ⟨hsame, rfl⟩
  · -- another hash was recorded: the unit was restarted, whatever it ran before
    have hskip : ¬ SkipsUnit hash u := fun hskips => hchanged hskips.1
    rw [if_neg hskip]
    unfold Host.enableNow
    split <;> exact ⟨rfl, rfl⟩
  · have hhash : u.appliedHash = hash := by simpa using hsame
    cases hunit : u.unit with
    | none => simp [Host.enableNow, Host.startUnit, SkipsUnit, hunit]
    | some loaded => simp [Host.enableNow, SkipsUnit, hunit, hhash]

/-- What a stop leaves when it ends well. -/
theorem stop_ok {s : Spec} {box : Box} {f : Script Point} {h t : Host}
    (hrun : (stop s box).run f h = (.ok (), t)) :
    t = if s.installMethod = "docker" then
          if f .inspect = .done then h.stopContainer else h
        else if box.systemd = true ∧ f .stopUnit = .done then h.stopUnit else h := by
  unfold stop at hrun
  by_cases hmethod : s.installMethod = "docker"
  · simp only [hmethod, if_true, Prog.bind_ok, Prog.ask_ok, Prog.read_ok, Prog.onlyIf_ok,
      Prog.command_ok, exists_and_left, exists_eq_left, and_assoc] at hrun
    rw [if_pos hmethod]
    rcases hrun with ⟨hanswer, -, -, rfl⟩ | ⟨hskip, rfl⟩
    · rw [if_pos hanswer]
    · by_cases hanswer : f .inspect = .done
      · -- nothing ran, so there was nothing to stop
        have hidle : t.containerConfig = none := by simpa [hanswer] using hskip
        rw [if_pos hanswer]
        have hsame : (t.container.map fun c => { c with running := false }) = t.container := by
          cases hc : t.container with
          | none => rfl
          | some c =>
              have hstopped : c.running = false := by
                simpa [Host.containerConfig, hc] using hidle
              rw [Option.map_some, ← hstopped]
        rw [Host.stopContainer, hsame]
      · rw [if_neg hanswer]
  · simp only [hmethod, if_false, Prog.onlyIf_ok, Prog.attempt_ok] at hrun
    rw [if_neg hmethod]
    rcases hrun with ⟨hsystemd, rfl⟩ | ⟨hnone, rfl⟩
    · simp [hsystemd]
    · simp [hnone]

/-! ## Runs -/

/-- One pass: a spec as it is sent, what the box offers, and which commands fail. -/
structure Pass where
  raw : Json Int
  box : Box
  script : Script Point

section Runs

-- The keys are the agent's own; the manager computes the hash from the body of the spec.
variable (keys : Keys) (hashOf : Json Int → String)

/-- The pass of a decoded spec. -/
def Pass.converge (a : Pass) (s : Spec) : Prog Point Host Unit :=
  Dnsdist.converge keys s (hashOf a.raw) a.box

/-- An accepted spec is converged on; a rejected one changes nothing. -/
def step (h : Host) (a : Pass) : Host :=
  match decode a.raw with
  | .error _ => h
  | .ok s => (a.converge keys hashOf s).final a.script h

/-- A law about the passes that end well on a spec of one kind. -/
def OnSuccess (enabled : Bool) (law : Spec → Pass → Host → Prop) (h : Host) (a : Pass) : Prop :=
  match decode a.raw with
  | .error _ => True
  | .ok s =>
      s.enabled = enabled → (a.converge keys hashOf s).succeeds a.script h = true → law s a h

/-- Conditions on successful passes may be replaced by equivalent ones. -/
theorem onSuccess_congr {enabled : Bool} {law cond : Spec → Pass → Host → Prop}
    (hiff : ∀ s a h, s.enabled = enabled →
      (a.converge keys hashOf s).succeeds a.script h = true → (law s a h ↔ cond s a h))
    (h : Host) (a : Pass) :
    OnSuccess keys hashOf enabled law h a ↔ OnSuccess keys hashOf enabled cond h a := by
  unfold OnSuccess
  split
  · exact Iff.rfl
  · next s _ =>
      constructor
      · exact fun hlaw hkind hok => (hiff s a h hkind hok).mp (hlaw hkind hok)
      · exact fun hcond hkind hok => (hiff s a h hkind hok).mpr (hcond hkind hok)

end Runs

/-- What the running instance of an install method has loaded. -/
def Host.loaded (h : Host) (method : String) : Option String :=
  if method = "docker" then h.containerConfig else h.unit

/-- The running instance of the spec's install method has loaded the text rendered
in this pass. -/
def Loaded (keys : Keys) (s : Spec) (hash : String) (box : Box) (h : Host) : Prop :=
  ∃ lua ∈ render keys box.resolve s hash, h.loaded s.installMethod = some lua

/-- The host as a pass finds it once what the spec needs is installed. -/
def Host.found (s : Spec) (box : Box) (h : Host) : Host :=
  if s.installMethod = "docker" then h else h.withPackage box

/-- The pass leaves the instance alone: the recorded hash is the spec's, and a
container of its image, or the unit, is running. -/
def Skips (s : Spec) (hash : String) (h : Host) : Prop :=
  if s.installMethod = "docker" then SkipsContainer s hash h else SkipsUnit hash h

instance (s : Spec) (hash : String) (h : Host) : Decidable (Skips s hash h) := by
  unfold Skips
  infer_instance

/-- A pass that leaves the instance alone finds the text it renders already loaded;
any other pass starts a process that comes up. -/
def Confirmed (keys : Keys) (s : Spec) (hash : String) (box : Box) (h : Host) : Prop :=
  if Skips s hash (h.found s box) then Loaded keys s hash box (h.found s box)
  else box.comesUp = true

/-- What is loaded once a role was brought up: what a pass that skips has found, or the rendered
text if its process came up. -/
theorem bringUp_ok {keys : Keys} {s : Spec} {hash : String} {box : Box} {f : Script Point}
    {h t : Host} (hrun : (bringUp keys s hash box).run f h = (.ok (), t)) :
    ∃ lua ∈ render keys box.resolve s hash,
      t.loaded s.installMethod =
        (if Skips s hash (h.found s box) then (h.found s box).loaded s.installMethod
          else if box.comesUp then some lua else none) ∧
      (s.installMethod = "docker" → t.unit = h.unit) ∧
      (s.installMethod ≠ "docker" → t.containerConfig = h.containerConfig) := by
  unfold bringUp at hrun
  cases hlua : render keys box.resolve s hash with
  | none => simp [hlua, Prog.refuse_ok] at hrun
  | some lua =>
      refine ⟨lua, rfl, ?_⟩
      rw [hlua] at hrun
      by_cases hmethod : s.installMethod = "docker"
      · simp only [hmethod, if_true, Prog.bind_ok, Prog.command_ok] at hrun
        obtain ⟨_, u, hconverge, -, rfl⟩ := hrun
        obtain ⟨hunit, hconfig⟩ := convergeDocker_ok hconverge
        simpa [Host.loaded, Host.containerConfig, Host.found, Skips, hmethod] using
          ⟨hconfig, hunit⟩
      · simp only [hmethod, if_false, Prog.bind_ok, Prog.command_ok] at hrun
        obtain ⟨_, u, hconverge, -, rfl⟩ := hrun
        obtain ⟨hcontainer, hunit⟩ := convergeBare_ok hconverge
        simpa [Host.loaded, Host.containerConfig, Host.found, Skips, hmethod] using
          ⟨hunit, by rw [hcontainer]⟩

/-- One successful pass on an enabled spec. -/
theorem loaded_step_iff {keys : Keys} {hashOf : Json Int → String} {s : Spec} {a : Pass} {h : Host}
    (henabled : s.enabled = true)
    (hok : (a.converge keys hashOf s).succeeds a.script h = true) :
    Loaded keys s (hashOf a.raw) a.box ((a.converge keys hashOf s).final a.script h) ↔
      Confirmed keys s (hashOf a.raw) a.box h := by
  have hrun := Prog.succeeds_iff.mp hok
  generalize (a.converge keys hashOf s).final a.script h = t at hrun
  simp only [Pass.converge, converge, henabled, if_true] at hrun
  obtain ⟨lua, hlua, hloaded, -, -⟩ := bringUp_ok hrun
  rw [Option.mem_def] at hlua
  simp only [Loaded, Confirmed, hlua, hloaded, Option.mem_def, Option.some.injEq, exists_eq_left']
  by_cases hskip : Skips s (hashOf a.raw) (h.found s a.box)
  · simp [hskip]
  · cases hup : a.box.comesUp with
    | true => simp [hskip]
    | false => simp [hskip]

/-- **A converge is sound exactly when what it skips is already right.**  Along
every run, whatever fails and whatever the resolver answers, each successful pass
on an enabled spec leaves an instance running that loaded the text rendered in
that pass if and only if each such pass either starts a process that comes up or
leaves alone one that had loaded that very text. -/
theorem loaded_iff_confirmed (keys : Keys) (hashOf : Json Int → String) (start : Host)
    (run : List Pass) :
    RunLaws.Along (step keys hashOf) (OnSuccess keys hashOf true fun s a h =>
        Loaded keys s (hashOf a.raw) a.box ((a.converge keys hashOf s).final a.script h)) start run ↔
      RunLaws.Along (step keys hashOf) (OnSuccess keys hashOf true fun s a h =>
        Confirmed keys s (hashOf a.raw) a.box h) start run :=
  RunLaws.along_congr _ (onSuccess_congr keys hashOf fun _ _ _ => loaded_step_iff) start run

instance (keys : Keys) (s : Spec) (hash : String) (box : Box) (h : Host) :
    Decidable (Loaded keys s hash box h) := by
  unfold Loaded
  infer_instance

instance (keys : Keys) (hashOf : Json Int → String) (enabled : Bool)
    (law : Spec → Pass → Host → Prop) [∀ s a h, Decidable (law s a h)] (h : Host) (a : Pass) :
    Decidable (OnSuccess keys hashOf enabled law h a) := by
  unfold OnSuccess
  split <;> infer_instance

/-- A balancer with one backend that is named by hostname. -/
def hostnameSpec : Json Int :=
  .obj [("enabled", .bool true), ("install_method", .str "bare_metal"),
    ("listen", .strs ["0.0.0.0:53"]),
    ("backends", .arr [.obj [("name", .str "dns-a-1"), ("address", .str "dns-a.lan"),
      ("port", .num 53), ("weight", .num 1), ("order", .num 1)]])]

/-- The SHA-256 of the canonical form of `hostnameSpec`. -/
def hostnameHash : String := "97677f4f11c7d7d107b118ed7b603b732965843923fd0672595dba5f605990dd"

def freshHost : Host := ⟨none, none, "", "", none, none, false⟩

/-- A box on which the backend's name resolves to one IPv4 address. -/
def boxResolving (address : String) : Box where
  docker := false
  systemd := true
  program := true
  packagedConf := none
  packageStarts := true
  resolve := fun _ => (GoText.parseAddr address.toList).map ([·])
  comesUp := true

/-- An address that changes behind a hostname never reaches the running dnsdist. -/
theorem old_address_stays_loaded :
    ¬ RunLaws.Along (step ⟨"key", "key"⟩ fun _ => hostnameHash)
      (OnSuccess ⟨"key", "key"⟩ (fun _ => hostnameHash) true fun s a h =>
        Loaded ⟨"key", "key"⟩ s hostnameHash a.box
          ((a.converge ⟨"key", "key"⟩ (fun _ => hostnameHash) s).final a.script h))
      freshHost
      [⟨hostnameSpec, boxResolving "10.0.0.11", allDone⟩,
        ⟨hostnameSpec, boxResolving "10.0.0.12", allDone⟩] := by
  decide +kernel

/-! ## Standing down -/

/-- The container runs and a converge of this role started it. -/
def ContainerByRole (h : Host) : Prop := ∃ c ∈ h.container, c.running = true ∧ c.byRole = true

/-- The unit runs and a converge of this role started it. -/
def UnitByRole (h : Host) : Prop := h.unit.isSome ∧ h.unitByRole

instance (h : Host) : Decidable (ContainerByRole h) := by
  unfold ContainerByRole
  infer_instance

instance (h : Host) : Decidable (UnitByRole h) := inferInstanceAs (Decidable (_ ∧ _))

/-- Nothing that this role started is running. -/
def Stopped (h : Host) : Prop := ¬ ContainerByRole h ∧ ¬ UnitByRole h

/-- The disabled spec names the install method that runs, and the stop is not
dropped on the way. -/
def StopsAll (s : Spec) (a : Pass) (h : Host) : Prop :=
  if s.installMethod = "docker" then
    ¬ UnitByRole h ∧ (a.script .inspect = .done ∨ ¬ ContainerByRole h)
  else
    ¬ ContainerByRole h ∧
      ((a.box.systemd = true ∧ a.script .stopUnit = .done) ∨ ¬ UnitByRole h)

/-- The instance of the other install method is down. -/
def OtherDown (s : Spec) (h : Host) : Prop :=
  if s.installMethod = "docker" then h.unit = none else h.containerConfig = none

section StandDown

variable {keys : Keys} {hashOf : Json Int → String} {s : Spec} {a : Pass} {h : Host}

/-- A disabled role is stopped exactly when the pass stops all of it. -/
theorem stopped_step_iff (hdisabled : s.enabled = false)
    (hok : (a.converge keys hashOf s).succeeds a.script h = true) :
    Stopped ((a.converge keys hashOf s).final a.script h) ↔ StopsAll s a h := by
  have hrun := Prog.succeeds_iff.mp hok
  generalize (a.converge keys hashOf s).final a.script h = t at hrun
  simp only [Pass.converge, converge, hdisabled, Bool.false_eq_true, if_false] at hrun
  rw [stop_ok hrun]
  unfold Stopped StopsAll
  by_cases hmethod : s.installMethod = "docker"
  · rw [if_pos hmethod, if_pos hmethod]
    by_cases hanswer : a.script .inspect = .done
    · have hcontainer : ¬ ContainerByRole h.stopContainer := by
        simp [ContainerByRole, Host.stopContainer]
      have hunit : UnitByRole h.stopContainer ↔ UnitByRole h := Iff.rfl
      simp [hanswer, hcontainer, hunit]
    · simp [hanswer, and_comm]
  · rw [if_neg hmethod, if_neg hmethod]
    by_cases hstops : a.box.systemd = true ∧ a.script .stopUnit = .done
    · simp [hstops, UnitByRole, ContainerByRole, Host.stopUnit]
    · simp [hstops]

/-- A converge on an enabled spec does not touch the other method's instance. -/
theorem otherDown_step_iff (henabled : s.enabled = true)
    (hok : (a.converge keys hashOf s).succeeds a.script h = true) :
    OtherDown s ((a.converge keys hashOf s).final a.script h) ↔ OtherDown s h := by
  have hrun := Prog.succeeds_iff.mp hok
  generalize (a.converge keys hashOf s).final a.script h = t at hrun
  simp only [Pass.converge, converge, henabled, if_true] at hrun
  obtain ⟨-, -, -, hunit, hcontainer⟩ := bringUp_ok hrun
  unfold OtherDown
  by_cases hmethod : s.installMethod = "docker"
  · rw [if_pos hmethod, if_pos hmethod, hunit hmethod]
  · rw [if_neg hmethod, if_neg hmethod, hcontainer hmethod]

end StandDown

end AdguardAdmin.Dnsdist
