import AdguardAdmin.AdguardSpec
import AdguardAdmin.RunLaws
/-!
# Recreating the AdGuard container from several sides

A converge pass and an update both recreate the container: they remove what is left
under `adguardhome-prev`, rename the container to that name, run a new one, and on a
failure put the old one back.  One converge pass runs at a time, but an update waits for
nobody, so the commands of several recreates can come in any order.

* `container_survives_iff` — on exactly which runs a container is always left under one
  of the two names, and every recreate that fails puts back what it replaced; a run in
  which recreates follow each other is one of them.
-/

namespace AdguardAdmin.ContainerSwaps

open RunLaws Adguard

/-! ## Docker -/

structure Container where
  id : Nat
  image : String
  imageId : String
  hash : String
  running : Bool
  deriving DecidableEq, Repr

/-- The container once it has been started. -/
def Container.started (c : Container) : Container := { c with running := true }

/-- The two names that the role uses: `adguardhome` and `adguardhome-prev`. -/
inductive Name where
  | adguardhome
  | prev
  deriving DecidableEq, Repr

/-- The containers, and the image that each reference stands for on this host. -/
structure Docker where
  containers : Name → Option Container
  images : String → String
  created : Nat

namespace Docker

variable (d : Docker)

/-- `docker rm -f`. -/
def rm (n : Name) : Docker := { d with containers := Function.update d.containers n none }

/-- `docker rename`, refused when there is nothing to rename or the name is taken. -/
def rename (a b : Name) : Option Docker :=
  match d.containers a, d.containers b with
  | some c, none =>
      some { d with containers := Function.update (Function.update d.containers a none) b (some c) }
  | _, _ => none

def setRunning (n : Name) (running : Bool) : Docker :=
  { d with
    containers := Function.update d.containers n
      ((d.containers n).map fun c => { c with running := running }) }

/-- `docker run --name adguardhome`, refused when the name is taken. -/
def run (s : Spec) (hash : String) (running : Bool) : Option Docker :=
  match d.containers .adguardhome with
  | some _ => none
  | none =>
      some
        { d with
          containers := Function.update d.containers .adguardhome
            (some ⟨d.created, s.image, d.images s.image, hash, running⟩)
          created := d.created + 1 }

/-- `docker pull`. -/
def pull (registry : String → String) (image : String) : Docker :=
  { d with images := Function.update d.images image (registry image) }

end Docker

/-! ## One task -/

/-- How a command ends.  A `docker run` that is torn has made a container that did not
start; a `docker inspect` that is torn has printed something else than a container. -/
inductive Outcome where
  | done
  | failed
  | torn
  deriving DecidableEq, Repr

/-- What a recreate does next.  `old` is the container that it renamed. -/
inductive Swap where
  | removingLeftover
  | renamingToPrev
  | stoppingPrev (old : Container)
  | running (old : Container)
  | waiting (old : Container)
  | removingPrev (old : Container)
  | rollbackRemove (old : Container)
  | rollbackRename (old : Container)
  | rollbackStart (old : Container)
  deriving DecidableEq, Repr

inductive Reply where
  | converged (enabled : Bool)
  | updated (started : Bool) (message : String)
  | failed (message : String)
  deriving DecidableEq, Repr

/-- What a task does next. -/
inductive Phase where
  -- `convergeDocker`
  | checkingDocker
  | inspecting
  | stopping
  | creating
  | starting
  | answering
  -- the rest of `convergeHostNetwork`
  | comparing
  | stoppingToEdit
  | editing
  | restarting
  | answeringAgain
  -- `Update`
  | pulling
  | inspectingToUpdate
  | askingImage (c : Option Container)
  -- `recreate`
  | swapping (w : Swap)
  | done (r : Reply)
  deriving DecidableEq, Repr

/-- A converge pass or an update. -/
structure Task where
  converging : Bool
  spec : Spec
  hash : String
  phase : Phase

/-- What the caller of a recreate does when it returns. -/
def Task.swapped (t : Task) : Except String Unit → Phase
  | .error e => .done (.failed e)
  | .ok () =>
      if t.converging = true then .answering
      else .done (.updated true ("container recreated from " ++ t.spec.image))

/-- The next command of a recreate.  The commands of the rollback do not fail. -/
def Task.swap (t : Task) (d : Docker) (o : Outcome) : Swap → Docker × Phase
  | .removingLeftover => (if o = .done then d.rm .prev else d, .swapping .renamingToPrev)
  | .renamingToPrev =>
      match o, d.containers .adguardhome, d.rename .adguardhome .prev with
      | .done, some old, some d' => (d', .swapping (.stoppingPrev old))
      | _, _, _ => (d, t.swapped (.error "docker rename adguardhome adguardhome-prev"))
  | .stoppingPrev old =>
      (if o = .done then d.setRunning .prev false else d, .swapping (.running old))
  | .running old =>
      match o, d.run t.spec t.hash (o = .done) with
      | .done, some d' => (d', .swapping (.waiting old))
      | .torn, some d' => (d', .swapping (.rollbackRemove old))
      | _, _ => (d, .swapping (.rollbackRemove old))
  | .waiting old =>
      (d, .swapping (if o = .done then .removingPrev old else .rollbackRemove old))
  | .removingPrev _ => (if o = .done then d.rm .prev else d, t.swapped (.ok ()))
  | .rollbackRemove old => (d.rm .adguardhome, .swapping (.rollbackRename old))
  | .rollbackRename old =>
      ((d.rename .prev .adguardhome).getD d, .swapping (.rollbackStart old))
  | .rollbackStart _ =>
      (d.setRunning .adguardhome true,
        t.swapped (.error "recreate failed, previous container restored"))

/-- What a pass does once it knows the container. -/
def Task.plan (t : Task) (c : Option Container) : Phase :=
  if t.spec.enabled = false then
    if c.any (·.running) = true then .stopping else .done (.converged false)
  else
    match c with
    | none => .creating
    | some c =>
        if c.hash ≠ t.hash ∨ c.image ≠ t.spec.image then .swapping .removingLeftover
        else if c.running = false then .starting
        else .answering

/-- What an update does once it knows the container and the image. -/
def planUpdate (latest : String) : Option Container → Phase
  | none => .done (.updated false "container not present; converge first")
  | some c =>
      if latest ≠ "" ∧ c.imageId = latest then .done (.updated false "already current")
      else .swapping .removingLeftover

/-- The next command of a task. -/
def Task.advance (t : Task) (registry : String → String) (d : Docker) (o : Outcome) :
    Docker × Phase :=
  match t.phase with
  | .checkingDocker =>
      (d, if o = .done then .inspecting else .done (.failed "docker is not available on this host"))
  | .inspecting =>
      match o with
      | .done => (d, t.plan (d.containers .adguardhome))
      | .failed => (d, t.plan none)
      | .torn => (d, .done (.failed "parse docker inspect adguardhome"))
  | .stopping =>
      match o with
      | .done => (d.setRunning .adguardhome false, .done (.converged false))
      | _ => (d, .done (.failed "docker stop adguardhome"))
  | .creating =>
      match o, d.run t.spec t.hash (o = .done) with
      | .done, some d' => (d', .answering)
      | .torn, some d' => (d', .done (.failed "docker run"))
      | _, _ => (d, .done (.failed "docker run"))
  | .starting =>
      match o with
      | .done => (d.setRunning .adguardhome true, .answering)
      | _ => (d, .done (.failed "docker start adguardhome"))
  | .answering =>
      match o with
      | .done => (d, if t.spec.network = "bridge" then .done (.converged true) else .comparing)
      | _ => (d, .done (.failed "AdGuard Home did not answer"))
  | .comparing =>
      -- the addresses in the file are those of the spec, or they are others
      match o with
      | .done => (d, .done (.converged true))
      | .torn => (d, .stoppingToEdit)
      | .failed => (d, .done (.failed "read AdGuardHome.yaml"))
  | .stoppingToEdit =>
      match o with
      | .done => (d.setRunning .adguardhome false, .editing)
      | _ => (d, .done (.failed "docker stop adguardhome"))
  | .editing => (d, if o = .done then .restarting else .done (.failed "write AdGuardHome.yaml"))
  | .restarting =>
      match o with
      | .done => (d.setRunning .adguardhome true, .answeringAgain)
      | _ => (d, .done (.failed "docker start adguardhome"))
  | .answeringAgain =>
      (d, .done (if o = .done then .converged true else .failed "AdGuard Home did not answer"))
  | .pulling =>
      match o with
      | .done => (d.pull registry t.spec.image, .inspectingToUpdate)
      | _ => (d, .done (.failed "docker pull"))
  | .inspectingToUpdate =>
      match o with
      | .done => (d, .askingImage (d.containers .adguardhome))
      | .failed => (d, .askingImage none)
      | .torn => (d, .done (.failed "parse docker inspect adguardhome"))
  | .askingImage c => (d, planUpdate (if o = .done then d.images t.spec.image else "") c)
  | .swapping w => t.swap d o w
  | .done r => (d, .done r)

/-! ## The host -/

/-- A recreate that failed, when its last command ended: the container that it replaced
and the one that is now called `adguardhome`. -/
structure Failed where
  old : Container
  now : Option Container
  deriving DecidableEq, Repr

structure Host where
  docker : Docker
  registry : String → String
  tasks : List Task
  failed : List Failed

inductive Event where
  | publish (image id : String)
  | converge (s : Spec) (hash : String)
  | update (s : Spec) (hash : String)
  /-- The next command of task `k`. -/
  | command (k : Nat) (o : Outcome)

def Phase.isDone : Phase → Bool
  | .done _ => true
  | _ => false

/-- A converge pass that has not returned holds the lock. -/
def Host.converging (h : Host) : Bool :=
  h.tasks.any fun t => t.converging && !t.phase.isDone

/-- A pass over a native install touches no container. -/
def newConverge (s : Spec) (hash : String) : Task :=
  ⟨true, s, hash, if s.installMethod = "docker" then .checkingDocker else .done (.converged true)⟩

def newUpdate (s : Spec) (hash : String) : Task :=
  ⟨false, s, hash,
    if s.installMethod = "bare_metal" then .done (.updated true "update started") else .pulling⟩

/-- The record of a recreate whose last command leaves `d`. -/
def Phase.failure (d : Docker) : Phase → List Failed
  | .swapping (.rollbackStart old) => [⟨old, d.containers .adguardhome⟩]
  | _ => []

def Host.step (h : Host) (e : Event) : Host :=
  match e with
  | .publish image id => { h with registry := Function.update h.registry image id }
  | .converge s hash =>
      if h.converging = true then h else { h with tasks := h.tasks ++ [newConverge s hash] }
  | .update s hash => { h with tasks := h.tasks ++ [newUpdate s hash] }
  | .command k o =>
      match h.tasks[k]? with
      | none => h
      | some t =>
          let (d, phase) := t.advance h.registry h.docker o
          { h with
            docker := d
            tasks := h.tasks.set k { t with phase := phase }
            failed := h.failed ++ t.phase.failure d }

/-- A host with the container, on which no task has begun. -/
def Host.Starts (h : Host) : Prop :=
  (h.docker.containers .adguardhome).isSome ∧ h.tasks = [] ∧ h.failed = []

/-! ## What is promised -/

/-- There is a container under one of the names. -/
def Docker.Present (d : Docker) : Prop :=
  (d.containers .adguardhome).isSome ∨ (d.containers .prev).isSome

instance (d : Docker) : Decidable d.Present := inferInstanceAs (Decidable (_ ∨ _))

structure Host.Safe (h : Host) : Prop where
  present : h.docker.Present
  restored : ∀ f ∈ h.failed, f.now = some f.old.started

/-- The container of a name is `old`, running or not. -/
def Docker.Has (d : Docker) (n : Name) (old : Container) : Prop :=
  (d.containers n).map Container.started = some old.started

/-- What a command must find: `adguardhome` when `adguardhome-prev` is removed,
`adguardhome-prev` when a rollback removes `adguardhome`, and the container that was
replaced when a rollback starts it. -/
def Phase.Harmless (d : Docker) (o : Outcome) : Phase → Prop
  | .swapping .removingLeftover => o = .done → (d.containers .adguardhome).isSome
  | .swapping (.removingPrev _) => o = .done → (d.containers .adguardhome).isSome
  | .swapping (.rollbackRemove _) => (d.containers .prev).isSome
  | .swapping (.rollbackStart old) => d.Has .adguardhome old
  | _ => True

instance (d : Docker) (o : Outcome) : (p : Phase) → Decidable (p.Harmless d o)
  | .swapping .removingLeftover | .swapping (.removingPrev _) =>
      inferInstanceAs (Decidable (o = .done → (d.containers .adguardhome).isSome))
  | .swapping (.rollbackRemove _) => inferInstanceAs (Decidable ((d.containers .prev).isSome = true))
  | .swapping (.rollbackStart _) => inferInstanceAs (Decidable (_ = _))
  | .swapping .renamingToPrev | .swapping (.stoppingPrev _) | .swapping (.running _)
  | .swapping (.waiting _) | .swapping (.rollbackRename _) | .checkingDocker | .inspecting
  | .stopping | .creating | .starting | .answering | .comparing | .stoppingToEdit | .editing
  | .restarting | .answeringAgain | .pulling | .inspectingToUpdate | .askingImage _ | .done _ =>
      .isTrue trivial

def Harmless (h : Host) : Event → Prop
  | .command k o => ∀ t, h.tasks[k]? = some t → t.phase.Harmless h.docker o
  | _ => True

instance (h : Host) : (e : Event) → Decidable (Harmless h e)
  | .command k o =>
      inferInstanceAs (Decidable (∀ t ∈ h.tasks[k]?, t.phase.Harmless h.docker o))
  | .publish _ _ | .converge _ _ | .update _ _ => .isTrue trivial

/-- The command is the first of a recreate, or creates a container that is missing. -/
def Phase.begins : Phase → Bool
  | .swapping .removingLeftover | .creating => true
  | _ => false

/-- A recreate has begun and has not ended. -/
def Phase.between : Phase → Bool
  | .swapping .removingLeftover => false
  | .swapping _ => true
  | _ => false

/-- A recreate begins, and a missing container is created, when no recreate is on its
way. -/
def Exclusive (h : Host) : Event → Prop
  | .command k _ => ∀ t, h.tasks[k]? = some t → t.phase.begins = true →
      ∀ u ∈ h.tasks, u.phase.between = false
  | _ => True

/-! ## What a command leaves -/

section Commands

variable {d d' : Docker}

@[simp] theorem rm_containers (n m : Name) :
    (d.rm n).containers m = if m = n then none else d.containers m := by
  simp [Docker.rm, Function.update_apply]

@[simp] theorem setRunning_containers (n m : Name) (running : Bool) :
    (d.setRunning n running).containers m =
      if m = n then (d.containers n).map fun c => { c with running := running }
      else d.containers m := by
  simp [Docker.setRunning, Function.update_apply]

@[simp] theorem pull_containers (registry : String → String) (image : String) :
    (d.pull registry image).containers = d.containers := rfl

/-- A rename that works moves the container and leaves no other name for it. -/
theorem rename_spec {a b : Name} (hab : a ≠ b) (h : d.rename a b = some d') :
    ∃ c, d.containers a = some c ∧ d'.containers a = none ∧ d'.containers b = some c := by
  unfold Docker.rename at h
  split at h
  · rename_i c ha hb
    cases h
    refine ⟨c, ha, ?_, ?_⟩
    · simp [hab]
    · simp
  · cases h

/-- A rename that is possible works. -/
theorem rename_of_free {a b : Name} {c : Container} (ha : d.containers a = some c)
    (hb : d.containers b = none) : ∃ d', d.rename a b = some d' := by
  simp [Docker.rename, ha, hb]

/-- A container that is run is made under its name, which must have been free. -/
theorem run_spec {s : Spec} {hash : String} {running : Bool}
    (h : d.run s hash running = some d') :
    d.containers .adguardhome = none ∧ (d'.containers .adguardhome).isSome ∧
      d'.containers .prev = d.containers .prev := by
  unfold Docker.run at h
  split at h
  · cases h
  · rename_i hnone
    cases h
    exact ⟨hnone, by simp, by simp⟩

/-- Starting and stopping does not change which container has a name. -/
@[simp] theorem has_setRunning (n m : Name) (running : Bool) (old : Container) :
    (d.setRunning n running).Has m old ↔ d.Has m old := by
  unfold Docker.Has
  rw [setRunning_containers]
  split
  · rename_i heq
    rw [heq, Option.map_map]
    rfl
  · rfl

@[simp] theorem present_setRunning (n : Name) (running : Bool) :
    (d.setRunning n running).Present ↔ d.Present := by
  cases n <;> simp [Docker.Present]

@[simp] theorem present_pull (registry : String → String) (image : String) :
    (d.pull registry image).Present ↔ d.Present := Iff.rfl

/-- A container that is renamed is there. -/
theorem present_rename {a b : Name} (hab : a ≠ b) (h : d.rename a b = some d') : d'.Present := by
  obtain ⟨c, -, -, hb⟩ := rename_spec hab h
  cases b with
  | adguardhome => exact .inl (by rw [hb]; rfl)
  | prev => exact .inr (by rw [hb]; rfl)

theorem present_run {s : Spec} {hash : String} {running : Bool}
    (h : d.run s hash running = some d') : d'.Present :=
  .inl (run_spec h).2.1

end Commands

/-- The commands outside a recreate take no container away. -/
theorem advance_present {d : Docker} (h : d.Present) {t : Task} (registry : String → String)
    (o : Outcome) (hphase : ∀ w, t.phase ≠ .swapping w) :
    (t.advance registry d o).1.Present := by
  unfold Task.advance
  split
  case h_4 =>
    -- a container that was missing
    split
    · rename_i d' hrun
      exact present_run hrun
    · rename_i d' hrun
      exact present_run hrun
    · exact h
  case h_15 =>
    rename_i w hw
    exact (hphase w hw).elim
  all_goals
    first
      | exact h
      | (split <;> simpa using h)

/-- A promise kept by a command of a recreate, about the containers it leaves. -/
theorem swap_safe_iff {d : Docker} (h : d.Present) (t : Task) (o : Outcome) (w : Swap) :
    ((t.swap d o w).1.Present ∧
        ∀ f ∈ (Phase.swapping w).failure (t.swap d o w).1, f.now = some f.old.started) ↔
      (Phase.swapping w).Harmless d o := by
  cases w with
  | removingLeftover =>
      by_cases ho : o = .done
      · simp [Task.swap, Phase.failure, Phase.Harmless, Docker.Present, ho]
      · simp [Task.swap, Phase.failure, Phase.Harmless, h, ho]
  | renamingToPrev =>
      simp only [Task.swap, Phase.failure, Phase.Harmless, iff_true]
      refine ⟨?_, by simp⟩
      split
      · rename_i hrename
        exact present_rename (by decide) hrename
      · exact h
  | stoppingPrev old =>
      by_cases ho : o = .done
      · simp [Task.swap, Phase.failure, Phase.Harmless, ho, h]
      · simp [Task.swap, Phase.failure, Phase.Harmless, ho, h]
  | running old =>
      simp only [Task.swap, Phase.failure, Phase.Harmless, iff_true]
      refine ⟨?_, by simp⟩
      split
      · rename_i hrun
        exact present_run hrun
      · rename_i hrun
        exact present_run hrun
      · exact h
  | waiting old => simp [Task.swap, Phase.failure, Phase.Harmless, h]
  | removingPrev old =>
      by_cases ho : o = .done
      · simp [Task.swap, Phase.failure, Phase.Harmless, Docker.Present, ho]
      · simp [Task.swap, Phase.failure, Phase.Harmless, h, ho]
  | rollbackRemove old => simp [Task.swap, Phase.failure, Phase.Harmless, Docker.Present]
  | rollbackRename old =>
      simp only [Task.swap, Phase.failure, Phase.Harmless, iff_true]
      refine ⟨?_, by simp⟩
      cases hrename : d.rename .prev .adguardhome with
      | none => exact h
      | some d' => exact present_rename (by decide) hrename
  | rollbackStart old =>
      simp only [Task.swap, Phase.failure, Phase.Harmless]
      rw [present_setRunning]
      simp [h, Docker.Has, Container.started]

/-- One command keeps the promise exactly when it finds what it must. -/
theorem advance_safe_iff {d : Docker} (h : d.Present) (t : Task) (registry : String → String)
    (o : Outcome) :
    ((t.advance registry d o).1.Present ∧
        ∀ f ∈ t.phase.failure (t.advance registry d o).1, f.now = some f.old.started) ↔
      t.phase.Harmless d o := by
  by_cases hswap : ∃ w, t.phase = .swapping w
  · obtain ⟨w, hw⟩ := hswap
    simp only [Task.advance, hw]
    exact swap_safe_iff h t o w
  · have hphase : ∀ w, t.phase ≠ .swapping w := fun w hw => hswap ⟨w, hw⟩
    have hfailure : t.phase.failure (t.advance registry d o).1 = [] := by
      unfold Phase.failure
      split
      · rename_i old hold
        exact (hphase _ hold).elim
      · rfl
    have hharmless : t.phase.Harmless d o := by
      unfold Phase.Harmless
      split
      all_goals first
        | exact trivial
        | exact (hphase _ ‹_›).elim
    simp [hfailure, hharmless, advance_present h registry o hphase]

/-- **One event.**  From a safe state it leads to a safe state exactly when it is
harmless. -/
theorem safe_step_iff {h : Host} (hs : h.Safe) (e : Event) : (h.step e).Safe ↔ Harmless h e := by
  cases e with
  | publish image id => simpa [Host.step, Harmless] using ⟨hs.present, hs.restored⟩
  | converge s hash =>
      simp only [Host.step, Harmless, iff_true]
      split
      · exact hs
      · exact ⟨hs.present, hs.restored⟩
  | update s hash => simpa [Host.step, Harmless] using ⟨hs.present, hs.restored⟩
  | command k o =>
      simp only [Host.step, Harmless]
      cases htask : h.tasks[k]? with
      | none => simp [hs]
      | some t =>
          simp only [Option.some.injEq, forall_eq']
          rw [← advance_safe_iff hs.present t h.registry o]
          constructor
          · intro hnext
            refine ⟨hnext.present, fun f hf => hnext.restored f ?_⟩
            exact List.mem_append_right _ hf
          · intro hnext
            refine ⟨hnext.1, fun f hf => ?_⟩
            rcases List.mem_append.mp hf with hf | hf
            · exact hs.restored f hf
            · exact hnext.2 f hf

/-! ## Recreates one after the other -/

/-- What a recreate has achieved so far, as long as no other one is on its way. -/
def Phase.Holds (d : Docker) : Phase → Prop
  | .swapping .renamingToPrev => (d.containers .adguardhome).isSome
  | .swapping (.stoppingPrev old) => d.containers .adguardhome = none ∧ d.Has .prev old
  | .swapping (.running old) => d.containers .adguardhome = none ∧ d.Has .prev old
  | .swapping (.waiting old) => (d.containers .adguardhome).isSome ∧ d.Has .prev old
  | .swapping (.removingPrev old) => (d.containers .adguardhome).isSome ∧ d.Has .prev old
  | .swapping (.rollbackRemove old) => d.Has .prev old
  | .swapping (.rollbackRename old) => d.containers .adguardhome = none ∧ d.Has .prev old
  | .swapping (.rollbackStart old) => d.Has .adguardhome old
  | _ => True

structure Host.Orderly (h : Host) : Prop where
  single : ∀ (j k : Nat) (t u : Task), h.tasks[j]? = some t → h.tasks[k]? = some u →
    t.phase.between = true → u.phase.between = true → j = k
  idle : (∀ t ∈ h.tasks, t.phase.between = false) → (h.docker.containers .adguardhome).isSome
  holds : ∀ t ∈ h.tasks, t.phase.Holds h.docker

section Orderly

variable {d d' : Docker} {h : Host}

/-- A container that is had is there. -/
theorem Docker.Has.isSome {n : Name} {old : Container} (h : d.Has n old) :
    (d.containers n).isSome := by
  unfold Docker.Has at h
  obtain ⟨c, hc, -⟩ := Option.map_eq_some_iff.mp h
  rw [hc]
  rfl

/-- What is found under a name is had. -/
theorem Docker.has_of_eq {n : Name} {c : Container} (h : d.containers n = some c) : d.Has n c := by
  unfold Docker.Has
  rw [h]
  rfl

/-- What is had under one name is had under another that has the same. -/
theorem Docker.Has.congr {n m : Name} {old : Container} (h : d.Has n old)
    (hsame : d'.containers m = d.containers n) : d'.Has m old := by
  unfold Docker.Has at h ⊢
  rw [hsame]
  exact h

/-- A phase that is not between two commands asks nothing of the containers. -/
theorem holds_of_not_between {p : Phase} (hp : p.between = false) : p.Holds d := by
  unfold Phase.Holds
  split <;> trivial

/-- A recreate that returns is not under way any more. -/
theorem swapped_between (t : Task) (r : Except String Unit) : (t.swapped r).between = false := by
  unfold Task.swapped
  split
  · rfl
  · split <;> rfl

/-- A task does not begin in the middle of a recreate. -/
theorem plan_between (t : Task) (c : Option Container) : (t.plan c).between = false := by
  unfold Task.plan
  split
  · split <;> rfl
  · split
    · rfl
    · split
      · rfl
      · split <;> rfl

/-- What an update plans to do first is not the middle of a recreate. -/
theorem planUpdate_between (latest : String) (c : Option Container) :
    (planUpdate latest c).between = false := by
  unfold planUpdate
  split
  · rfl
  · split <;> rfl

/-- A recreate that nobody disturbs gets on, and leaves `adguardhome` when it returns. -/
theorem swap_holds {t : Task} {w : Swap} (o : Outcome) (hholds : (Phase.swapping w).Holds d)
    (hbegin : w = .removingLeftover → (d.containers .adguardhome).isSome) :
    (t.swap d o w).2.Holds (t.swap d o w).1 ∧
      ((t.swap d o w).2.between = false →
        ((t.swap d o w).1.containers .adguardhome).isSome) := by
  cases w with
  | removingLeftover =>
      have hmain := hbegin rfl
      simp only [Task.swap, Phase.Holds, Phase.between]
      split <;> simp [hmain]
  | renamingToPrev =>
      simp only [Task.swap]
      split
      · rename_i old d' hold hrename
        obtain ⟨c, hc, hnone, hprev⟩ := rename_spec (by decide) hrename
        have heq : c = old := Option.some.inj (hc.symm.trans hold)
        refine ⟨⟨hnone, Docker.has_of_eq (heq ▸ hprev)⟩, ?_⟩
        intro hbetween
        cases hbetween
      · exact ⟨holds_of_not_between (swapped_between t (.error _)), fun _ => hholds⟩
  | stoppingPrev old =>
      simp only [Task.swap, Phase.Holds, Phase.between] at hholds ⊢
      split <;> simp [hholds]
  | running old =>
      obtain ⟨-, hprev⟩ := hholds
      simp only [Task.swap]
      split
      · rename_i d' hrun
        obtain ⟨-, hmain, hsame⟩ := run_spec hrun
        exact ⟨⟨hmain, hprev.congr hsame⟩, fun _ => hmain⟩
      · rename_i d' hrun
        obtain ⟨-, hmain, hsame⟩ := run_spec hrun
        exact ⟨hprev.congr hsame, fun _ => hmain⟩
      · refine ⟨hprev, ?_⟩
        intro hbetween
        cases hbetween
  | waiting old =>
      obtain ⟨hmain, hprev⟩ := hholds
      simp only [Task.swap]
      split
      · exact ⟨⟨hmain, hprev⟩, fun _ => hmain⟩
      · exact ⟨hprev, fun _ => hmain⟩
  | removingPrev old =>
      refine ⟨holds_of_not_between (swapped_between t (.ok ())), fun _ => ?_⟩
      simp only [Task.swap]
      split <;> simp [hholds.1]
  | rollbackRemove old =>
      simp only [Task.swap]
      refine ⟨⟨by simp, Docker.Has.congr hholds (by simp)⟩, ?_⟩
      intro hbetween
      cases hbetween
  | rollbackRename old =>
      -- the name is free, so the container gets it back
      obtain ⟨hnone, hprev⟩ := hholds
      obtain ⟨c, hc⟩ := Option.isSome_iff_exists.mp hprev.isSome
      obtain ⟨d', hrename⟩ := rename_of_free hc hnone
      obtain ⟨c', hc', -, hmain⟩ := rename_spec (by decide) hrename
      simp only [Task.swap, hrename, Option.getD_some]
      refine ⟨hprev.congr (hmain.trans hc'.symm), ?_⟩
      intro hbetween
      cases hbetween
  | rollbackStart old =>
      refine ⟨holds_of_not_between (swapped_between t (.error _)), fun _ => ?_⟩
      have hmain : (d.containers .adguardhome).isSome := Docker.Has.isSome hholds
      simp [Task.swap, hmain]

/-- The names stand for the same containers. -/
def Docker.Alike (d d' : Docker) : Prop :=
  ∀ n, (d'.containers n).map Container.started = (d.containers n).map Container.started

theorem Docker.Alike.refl (d : Docker) : d.Alike d := fun _ => rfl

/-- A start or a stop leaves containers alike. -/
theorem alike_setRunning (n : Name) (running : Bool) : d.Alike (d.setRunning n running) := by
  intro m
  rw [setRunning_containers]
  split
  · rename_i heq
    rw [heq, Option.map_map]
    rfl
  · rfl

/-- What is there is there in what is alike. -/
theorem Docker.Alike.isSome (h : d.Alike d') (n : Name) :
    (d'.containers n).isSome = (d.containers n).isSome := by
  simpa using congrArg Option.isSome (h n)

theorem Docker.Alike.eq_none (h : d.Alike d') (n : Name) :
    d'.containers n = none ↔ d.containers n = none := by
  rw [← Option.not_isSome_iff_eq_none, ← Option.not_isSome_iff_eq_none, h.isSome n]

/-- What is had is had in what is alike. -/
theorem Docker.Alike.has (h : d.Alike d') (n : Name) (old : Container) :
    d'.Has n old ↔ d.Has n old := by
  unfold Docker.Has
  rw [h n]

theorem holds_congr (h : d.Alike d') (p : Phase) : p.Holds d' ↔ p.Holds d := by
  unfold Phase.Holds
  split <;> simp only [h.isSome, h.eq_none, h.has]

/-- Outside a recreate a task starts and stops containers, and creates a missing one. -/
theorem advance_outside {t : Task} (registry : String → String) (o : Outcome)
    (hphase : ∀ w, t.phase ≠ .swapping w)
    (hcreating : t.phase = .creating → (d.containers .adguardhome).isSome) :
    d.Alike (t.advance registry d o).1 ∧ (t.advance registry d o).2.between = false := by
  unfold Task.advance
  split
  case h_4 =>
    rename_i hcreate
    obtain ⟨c, hc⟩ := Option.isSome_iff_exists.mp (hcreating hcreate)
    have hrun : ∀ running, d.run t.spec t.hash running = none := by
      intro running
      simp [Docker.run, hc]
    split
    · rename_i hsome
      rw [hrun] at hsome
      cases hsome
    · rename_i hsome
      rw [hrun] at hsome
      cases hsome
    · exact ⟨.refl d, rfl⟩
  case h_15 =>
    rename_i w hw
    exact (hphase w hw).elim
  case h_1 => exact ⟨.refl d, by split <;> rfl⟩
  case h_2 =>
    split
    · exact ⟨.refl d, plan_between t _⟩
    · exact ⟨.refl d, plan_between t none⟩
    · exact ⟨.refl d, rfl⟩
  case h_6 =>
    split
    · refine ⟨.refl d, ?_⟩
      dsimp only
      split <;> rfl
    · exact ⟨.refl d, rfl⟩
  case h_9 =>
    refine ⟨.refl d, ?_⟩
    dsimp only
    split <;> rfl
  case h_14 => exact ⟨.refl d, planUpdate_between _ _⟩
  -- the container is started or stopped, or nothing happens to it
  all_goals first
    | exact ⟨.refl d, rfl⟩
    | (split <;> first | exact ⟨alike_setRunning _ _, rfl⟩ | exact ⟨.refl d, rfl⟩)

/-- A host on which task `k` has done a command. -/
theorem orderly_set (hs : h.Orderly) {k : Nat} {t u : Task} {d : Docker} {failed : List Failed}
    (ht : h.tasks[k]? = some t) (hown : u.phase.Holds d)
    (hmain : u.phase.between = false → (∀ j v, j ≠ k → h.tasks[j]? = some v →
      v.phase.between = false) → (d.containers .adguardhome).isSome)
    (hothers : ∀ j v, j ≠ k → h.tasks[j]? = some v →
      v.phase.Holds d ∧ (u.phase.between = true → v.phase.between = false)) :
    Host.Orderly { h with docker := d, tasks := h.tasks.set k u, failed := failed } where
  single i j v w hi hj hv hw := by
    refine single_set (P := fun t : Task => t.phase.between = true) (g := fun _ => ()) ?_ ?_ hi hj
      hv hw rfl
    · exact fun i j v w _ _ hi hj hv hw _ => hs.single i j v w hi hj hv hw
    · intro j w hjk hj hu _
      simp [(hothers j w hjk hj).2 hu]
  idle hnone := by
    have hk : (h.tasks.set k u)[k]? = some u :=
      List.getElem?_set_self (List.getElem?_eq_some_iff.mp ht).1
    refine hmain (hnone u (List.mem_of_getElem? hk)) fun j v hjk hj => ?_
    have hset : (h.tasks.set k u)[j]? = some v := by
      rw [List.getElem?_set_ne (Ne.symm hjk)]
      exact hj
    exact hnone v (List.mem_of_getElem? hset)
  holds := forall_mem_set hown fun j v hjk hj => (hothers j v hjk hj).1

/-- Whoever else is there while a recreate is on its way or begins is not in one. -/
theorem others_idle (hs : h.Orderly) {k : Nat} {o : Outcome} {t : Task} {w : Swap}
    (ht : h.tasks[k]? = some t) (hw : t.phase = .swapping w)
    (hexclusive : Exclusive h (.command k o)) {j : Nat} {v : Task} (hjk : j ≠ k)
    (hj : h.tasks[j]? = some v) : v.phase.between = false := by
  cases hbegins : t.phase.begins with
  | true => exact hexclusive t ht hbegins v (List.mem_of_getElem? hj)
  | false =>
      have hbetween : t.phase.between = true := by
        rw [hw] at hbegins ⊢
        cases w <;> first | rfl | cases hbegins
      by_contra hv
      exact hjk (hs.single j k v t hj ht (by simpa using hv) hbetween)

/-- A command of the task that swaps keeps the host orderly. -/
theorem orderly_swap (hs : h.Orderly) {k : Nat} {o : Outcome} {t : Task} {w : Swap}
    (ht : h.tasks[k]? = some t) (hw : t.phase = .swapping w)
    (hexclusive : Exclusive h (.command k o)) {failed : List Failed} :
    Host.Orderly
      { h with
        docker := (t.swap h.docker o w).1
        tasks := h.tasks.set k { t with phase := (t.swap h.docker o w).2 }
        failed := failed } := by
  have hbegin : w = .removingLeftover → (h.docker.containers .adguardhome).isSome := by
    intro hremoving
    refine hs.idle (hexclusive t ht ?_)
    rw [hw, hremoving]
    rfl
  have hholds : (Phase.swapping w).Holds h.docker := hw ▸ hs.holds t (List.mem_of_getElem? ht)
  obtain ⟨hown, hmain⟩ := swap_holds o hholds hbegin
  refine orderly_set hs ht hown (fun hnew _ => hmain hnew) fun j v hjk hj => ?_
  have hidle := others_idle hs ht hw hexclusive hjk hj
  exact ⟨holds_of_not_between hidle, fun _ => hidle⟩

/-- An exclusive command of a task that is not recreating keeps the host orderly. -/
theorem orderly_outside (hs : h.Orderly) {k : Nat} {o : Outcome} {t : Task}
    (ht : h.tasks[k]? = some t) (hphase : ∀ w, t.phase ≠ .swapping w)
    (hexclusive : Exclusive h (.command k o)) {failed : List Failed} :
    Host.Orderly
      { h with
        docker := (t.advance h.registry h.docker o).1
        tasks := h.tasks.set k { t with phase := (t.advance h.registry h.docker o).2 }
        failed := failed } := by
  have hcreating : t.phase = .creating → (h.docker.containers .adguardhome).isSome := by
    intro hcreate
    refine hs.idle (hexclusive t ht ?_)
    rw [hcreate]
    rfl
  have hbetween : t.phase.between = false := by
    unfold Phase.between
    split
    · rfl
    · exact (hphase _ ‹_›).elim
    · rfl
  obtain ⟨halike, hnew⟩ := advance_outside h.registry o hphase hcreating
  refine orderly_set hs ht (holds_of_not_between hnew) ?_ fun j v _ hj => ?_
  · intro _ hothers
    rw [halike.isSome]
    refine hs.idle fun v hv => ?_
    obtain ⟨j, hj⟩ := List.mem_iff_getElem?.mp hv
    by_cases hjk : j = k
    · rw [hjk, ht] at hj
      cases hj
      exact hbetween
    · exact hothers j v hjk hj
  · refine ⟨(holds_congr halike _).mpr (hs.holds v (List.mem_of_getElem? hj)), fun hu => ?_⟩
    rw [hnew] at hu
    cases hu

/-- A new task has not begun with the container. -/
theorem orderly_append (hs : h.Orderly) {t : Task} (ht : t.phase.between = false) :
    Host.Orderly { h with tasks := h.tasks ++ [t] } where
  single i j v w hi hj hv hw := by
    refine single_append (P := fun t : Task => t.phase.between = true) (g := fun _ => ()) ?_
      (by simp [ht]) hi hj hv hw rfl
    exact fun i j v w hi hj hv hw _ => hs.single i j v w hi hj hv hw
  idle hnone := hs.idle fun v hv => hnone v (List.mem_append_left _ hv)
  holds := forall_mem_append hs.holds (holds_of_not_between ht)

/-- A converge does not begin between two commands. -/
theorem newConverge_between (s : Spec) (hash : String) :
    (newConverge s hash).phase.between = false := by
  unfold newConverge
  dsimp only
  split <;> rfl

/-- A new update is not in the middle of a recreate. -/
theorem newUpdate_between (s : Spec) (hash : String) :
    (newUpdate s hash).phase.between = false := by
  unfold newUpdate
  dsimp only
  split <;> rfl

/-- Every event keeps the host orderly, if one task swaps at a time. -/
theorem orderly_step (hs : h.Orderly) {e : Event} (hexclusive : Exclusive h e) :
    (h.step e).Orderly := by
  cases e with
  | publish image id => exact ⟨hs.single, hs.idle, hs.holds⟩
  | converge s hash =>
      simp only [Host.step]
      split
      · exact hs
      · exact orderly_append hs (newConverge_between s hash)
  | update s hash => exact orderly_append hs (newUpdate_between s hash)
  | command k o =>
      simp only [Host.step]
      split
      · exact hs
      · rename_i t ht
        by_cases hswap : ∃ w, t.phase = .swapping w
        · obtain ⟨w, hw⟩ := hswap
          have hadvance : t.advance h.registry h.docker o = t.swap h.docker o w := by
            simp only [Task.advance, hw]
          rw [hadvance]
          exact orderly_swap hs ht hw hexclusive
        · exact orderly_outside hs ht (fun w hw => hswap ⟨w, hw⟩) hexclusive

/-- When recreates follow each other every command finds what it must. -/
theorem harmless_of_exclusive (hs : h.Orderly) {e : Event} (hexclusive : Exclusive h e) :
    Harmless h e := by
  cases e with
  | publish image id => trivial
  | converge s hash => trivial
  | update s hash => trivial
  | command k o =>
      intro t ht
      have hholds : t.phase.Holds h.docker := hs.holds t (List.mem_of_getElem? ht)
      unfold Phase.Harmless
      split
      · rename_i hphase
        intro _
        refine hs.idle (hexclusive t ht ?_)
        rw [hphase]
        rfl
      · rename_i old hphase
        rw [hphase] at hholds
        exact fun _ => hholds.1
      · rename_i old hphase
        rw [hphase] at hholds
        exact Docker.Has.isSome hholds
      · rename_i old hphase
        rw [hphase] at hholds
        exact hholds
      · trivial

end Orderly

/-- A host with all its tasks at their start is safe. -/
theorem safe_of_starts {h : Host} (hs : h.Starts) : h.Safe := by
  obtain ⟨hmain, -, hfailed⟩ := hs
  exact ⟨.inl hmain, by simp [hfailed]⟩

theorem orderly_of_starts {h : Host} (hs : h.Starts) : h.Orderly := by
  obtain ⟨hmain, htasks, -⟩ := hs
  exact ⟨by simp [htasks], fun _ => hmain, by simp [htasks]⟩

/-! ## Whole runs -/

/-- **A container is always left, and a recreate that fails puts back what it replaced**,
on exactly those runs whose every command finds what it must; so it is on every run in
which recreates follow each other. -/
theorem container_survives_iff {h : Host} (hs : h.Starts) (events : List Event) :
    (Throughout Host.step Host.Safe h events ↔ Along Host.step Harmless h events) ∧
      (Along Host.step Exclusive h events → Along Host.step Harmless h events) := by
  constructor
  · refine throughout_iff_along _ ?_ (safe_of_starts hs) events
    intro g e hg
    exact safe_step_iff hg e
  · intro hexclusive
    refine along_of_invariant _ ?_ (orderly_of_starts hs) hexclusive
    intro g e hg he
    exact ⟨harmless_of_exclusive hg he, orderly_step hg he⟩

/-! ## A pass and an update at once -/

def managed : Spec :=
  ⟨true, "docker", "adguard/adguardhome:latest", "192.0.2.1", 80, ["192.0.2.1"], 53, "admin",
    "secret", "bridge", List.cons_ne_nil _ _⟩

/-- A host with the container of an earlier spec and an older image. -/
def dated : Host where
  docker :=
    { containers := fun
        | .adguardhome => some ⟨0, managed.image, "sha256:old", "before", true⟩
        | .prev => none
      images := fun _ => "sha256:old"
      created := 1 }
  registry := fun _ => "sha256:new"
  tasks := []
  failed := []

/-- A pass that recreates the container, and then an update whose new container does not
answer. -/
def passThenUpdate : List Event :=
  [.converge managed "now"] ++ List.replicate 9 (.command 0 .done) ++
    [.update managed "now"] ++ List.replicate 7 (.command 1 .done) ++ [.command 1 .failed] ++
    List.replicate 3 (.command 1 .done)

/-- The host keeps its container throughout. -/
theorem pass_then_update_survives : Throughout Host.step Host.Safe dated passThenUpdate :=
  (container_survives_iff ⟨rfl, rfl, rfl⟩ passThenUpdate).1.mpr (by decide +kernel)

/-- A pass and an update that have both looked at the container. -/
def bothLooked : List Event :=
  [.converge managed "now", .update managed "now", .command 0 .done, .command 0 .done,
    .command 1 .done, .command 1 .done, .command 1 .done]

/-- The pass renames the container, and the update removes it. -/
theorem update_removes_only_container :
    dated.Starts ∧ ¬ Throughout Host.step Host.Safe dated
      (bothLooked ++ [.command 0 .done, .command 0 .done, .command 1 .done]) := by
  refine ⟨⟨rfl, rfl, rfl⟩, fun h => ?_⟩
  have hpresent := (throughout_last _ h).present
  revert hpresent
  decide +kernel

-- an update whose new container does not answer
example : (after Host.step dated
      ([.update managed "now"] ++ List.replicate 7 (.command 0 .done) ++
        [.command 0 .failed] ++ List.replicate 3 (.command 0 .done))).docker.containers .adguardhome =
    some ⟨0, managed.image, "sha256:old", "before", true⟩ := by
  decide +kernel

end AdguardAdmin.ContainerSwaps
