import AdguardAdmin.FaultyPrograms
import AdguardAdmin.RunLaws
/-!
# The updater on a Docker host

The installer script leaves an updater on the host, which pulls the image of the AdGuard
container and recreates the container when the image moved.  The old container is stopped and
renamed, and put back when the new one does not come up.  Every step is a Docker command that
may fail, and a failing command ends the script where it stands.

* `settings_never_lost` — whatever fails in whatever runs, a container with the operator's
  settings is left under one of the two names;
* `old_or_new` — as long as Docker carries out what it is told with containers that exist, the
  container is up after every run, on the image it had or on the one just pulled.
-/

namespace AdguardAdmin.OnBoxUpdater

open Faulty RunLaws

/-- A container: what it was created from, and with which settings. -/
structure Container (κ : Type) where
  reference : String
  imageId : String
  settings : κ
  running : Bool
  deriving DecidableEq, Repr

/-- The containers under `$CONTAINER` and `$BACKUP`, and the local images. -/
structure Host (κ : Type) where
  service : Option (Container κ)
  backup : Option (Container κ)
  images : String → String

/-- The commands of the script, in their order. -/
inductive Point where
  | inspect
  | readImage
  /-- The settings are read through process substitutions, whose failures go unnoticed. -/
  | readSettings
  | pull
  | readNewImage
  | composeUp
  | removeBackup
  | stop
  | rename
  | run
  | readRunning
  | removeOld
  | rollbackRemove
  | rollbackRename
  | rollbackStart
  deriving DecidableEq, Repr

/-- What one run finds: what the registry holds, whether Compose manages a container with these
settings and what it makes of it, what is read of settings that cannot be read, and whether the
new container still runs after ten seconds. -/
structure Box (κ : Type) where
  registry : String → String
  managed : κ → Bool
  composeUp : Host κ → Host κ
  unread : κ
  staysUp : Bool

variable {κ : Type}

namespace Host

variable (h : Host κ)

def pull (registry : String → String) (reference : String) : Host κ :=
  { h with images := fun r => if r = reference then registry r else h.images r }

def removeBackup : Host κ := { h with backup := none }

def removeService : Host κ := { h with service := none }

def setRunning (running : Bool) : Host κ :=
  { h with service := h.service.map fun c => { c with running := running } }

/-- `docker rename "$CONTAINER" "$BACKUP"`. -/
def setAside : Host κ := { h with service := none, backup := h.service }

/-- `docker rename "$BACKUP" "$CONTAINER"`. -/
def putBack : Host κ := { h with service := h.backup, backup := none }

/-- `docker run`: the container is created, and runs unless it failed to start. -/
def create (c : Container κ) : Host κ := { h with service := some c }

end Host

/-- `rollback`, which always ends the script with an error. -/
def rollback : Prog Point (Host κ) Unit := do
  Prog.attempt .rollbackRemove Host.removeService
  let left ← Prog.read fun h : Host κ => h.service.isSome
  Prog.refuseIf (left = true) "Conflict. The container name is already in use"
  Prog.command .rollbackRename Host.putBack
  Prog.tearable .rollbackStart (·.setRunning true) (·.setRunning true)
  Prog.refuse "rolled back"

/-- Create the new container and look at it after ten seconds. -/
def bringUp (box : Box κ) (new : Container κ) : Prog Point (Host κ) Unit := do
  Prog.tearable .run (·.create { new with running := box.staysUp })
    (·.create { new with running := false })
  Prog.command .readRunning id
  let up ← Prog.read fun h : Host κ => h.service.any (·.running)
  Prog.refuseIf (up = false) "the new container did not come up"

/-- Swap the container for one on the new image. -/
def swap (box : Box κ) (new : Container κ) : Prog Point (Host κ) Unit := do
  Prog.attempt .removeBackup Host.removeBackup
  Prog.tearable .stop (·.setRunning false) (·.setRunning false)
  let left ← Prog.read fun h : Host κ => h.backup.isSome
  Prog.refuseIf (left = true) "Conflict. The container name is already in use"
  Prog.command .rename Host.setAside
  let result ← Prog.caught (bringUp box new)
  match result with
  | .error _ => rollback
  | .ok _ => Prog.attempt .removeOld Host.removeBackup

/-- `adguard-home-update`. -/
def update (box : Box κ) : Prog Point (Host κ) Unit := do
  Prog.command .inspect id
  let found ← Prog.read fun h : Host κ => h.service
  match found with
  | none => Prog.refuse "container not found"
  | some c => do
      Prog.command .readImage id
      let asked ← Prog.ask .readSettings
      Prog.tearable .pull (·.pull box.registry c.reference) (·.pull box.registry c.reference)
      Prog.command .readNewImage id
      let image ← Prog.read fun h : Host κ => h.images c.reference
      let settings := if asked = .done then c.settings else box.unread
      if image = c.imageId then pure ()
      else if box.managed c.settings = true then
        Prog.tearable .composeUp box.composeUp box.composeUp
      else swap box ⟨c.reference, image, settings, true⟩

/-! ## Runs -/

/-- A run of the updater, or what happens to the container between two runs. -/
inductive Event (κ : Type) where
  | update (box : Box κ) (script : Script Point)
  | exits
  | restarts

def step (h : Host κ) : Event κ → Host κ
  | .update box script => (update box).final script h
  | .exits => h.setRunning false
  | .restarts => h.setRunning true

/-- All containers have the operator's settings, and there is one. -/
structure Holds (k : κ) (h : Host κ) : Prop where
  service : ∀ c ∈ h.service, c.settings = k
  backup : ∀ c ∈ h.backup, c.settings = k
  some : h.service.isSome = true ∨ h.backup.isSome = true

/-- The settings are read, and Compose does not manage the container. -/
def Event.OwnedBy (k : κ) : Event κ → Prop
  | .update box script => script .readSettings = .done ∧ box.managed k = false
  | .exits | .restarts => True

/-- The container is as it was, or was swapped for one that is up, on the image that was
pulled and with the same settings. -/
def Current (box : Box κ) (c : Container κ) (h : Host κ) : Prop :=
  h.service = some c ∨ h.service =
    some ⟨c.reference, box.registry c.reference, c.settings, true⟩ ∧ box.staysUp = true

/-- What a run leaves of a container that is up. -/
def Swaps (h : Host κ) (e : Event κ) : Prop :=
  ∀ c, h.service = some c → c.running = true →
    match e with
    | .update box _ => Current box c (step h e)
    | .exits | .restarts => (step h e).service = some c

/-- The container is up. -/
def Serves (h : Host κ) : Prop := ∃ c, h.service = some c ∧ c.running = true

/-- Docker removes, renames and starts the containers it is told to, and says so when it has
stopped one. -/
def Event.Obeyed : Event κ → Prop
  | .update _ script =>
      script .removeBackup = .done ∧ script .stop ≠ .torn ∧ script .rename = .done ∧
        script .rollbackRemove = .done ∧ script .rollbackRename = .done ∧
        script .rollbackStart ≠ .failed
  | .exits => False
  | .restarts => True

section Rules

variable {k : κ} {f : Script Point} {box : Box κ} {new c : Container κ} {h : Host κ}

/-- A container that is started or stopped keeps its settings. -/
theorem Holds.setRunning (hh : Holds k h) (running : Bool) : Holds k (h.setRunning running) where
  service d hd := by
    obtain ⟨e, he, rfl⟩ := Option.map_eq_some_iff.mp hd
    exact hh.service e he
  backup := hh.backup
  some := hh.some.imp_left fun h => by rwa [Host.setRunning, Option.isSome_map]

/-- The container is under one of the names at least, and stays there. -/
theorem rollback_holds :
    Prog.Ends f (fun h => Holds k h ∧ h.backup.isSome = true) rollback
      (fun _ => Holds k) (Holds k) := by
  refine (Prog.ends_attempt (Q := fun _ (h : Host κ) => Holds k h ∧ h.backup.isSome = true)
    (fun _ h hh => ?_) fun _ _ hh => hh).bind fun _ => ?_
  · exact ⟨⟨nofun, hh.1.backup, .inr hh.2⟩, hh.2⟩
  refine (Prog.ends_read (Q := fun _ (h : Host κ) => Holds k h ∧ h.backup.isSome = true)
    fun _ hh => hh).bind fun left => ?_
  refine (Prog.ends_refuseIf (Q := fun _ (h : Host κ) => Holds k h ∧ h.backup.isSome = true)
    (fun _ _ hh => hh.1) fun _ _ hh => hh).bind fun _ => ?_
  refine (Prog.ends_command (Q := fun _ => Holds k) (fun h hh => ?_) fun _ hh => hh.1).bind
    fun _ => ?_
  · exact ⟨hh.1.backup, nofun, .inl hh.2⟩
  refine (Prog.ends_tearable (Q := fun _ => Holds k) (fun _ hh => hh.setRunning true)
    (fun _ hh => hh) fun _ hh => hh.setRunning true).bind fun _ => ?_
  exact Prog.ends_refuse fun _ hh => hh

/-- The old container is kept until the new one is up. -/
theorem bringUp_holds (hnew : new.settings = k) :
    Prog.Ends f (fun h => Holds k h ∧ h.backup.isSome = true) (bringUp box new)
      (fun _ h => Holds k h ∧ h.service.isSome = true)
      fun h => Holds k h ∧ h.backup.isSome = true := by
  have hcreate : ∀ (running : Bool) (h : Host κ), Holds k h ∧ h.backup.isSome = true →
      Holds k (h.create { new with running := running }) := by
    intro running h hh
    refine ⟨fun d hd => ?_, hh.1.backup, .inl rfl⟩
    obtain rfl := Option.some.inj hd
    exact hnew
  refine (Prog.ends_tearable (Q := fun _ (h : Host κ) =>
      (Holds k h ∧ h.backup.isSome = true) ∧ h.service.isSome = true)
    (fun h hh => ⟨⟨hcreate _ h hh, hh.2⟩, rfl⟩) (fun _ hh => hh)
    fun h hh => ⟨hcreate _ h hh, hh.2⟩).bind fun _ => ?_
  refine (Prog.ends_command (Q := fun _ (h : Host κ) =>
      (Holds k h ∧ h.backup.isSome = true) ∧ h.service.isSome = true)
    (fun _ hh => hh) fun _ hh => hh.1).bind fun _ => ?_
  refine (Prog.ends_read (Q := fun _ (h : Host κ) =>
      (Holds k h ∧ h.backup.isSome = true) ∧ h.service.isSome = true) fun _ hh => hh).bind
    fun up => ?_
  exact Prog.ends_refuseIf (fun _ _ hh => hh.1) fun _ _ hh => ⟨hh.1.1, hh.2⟩

/-- A swap for a container with these settings keeps them. -/
theorem swap_holds (hnew : new.settings = k) :
    Prog.Ends f (fun h => Holds k h ∧ h.service.isSome = true) (swap box new)
      (fun _ => Holds k) (Holds k) := by
  refine (Prog.ends_attempt (Q := fun _ (h : Host κ) => Holds k h ∧ h.service.isSome = true)
    (fun _ h hh => ?_) fun _ _ hh => hh).bind fun _ => ?_
  · exact ⟨⟨hh.1.service, nofun, .inl hh.2⟩, hh.2⟩
  have hstop : ∀ h : Host κ, Holds k h ∧ h.service.isSome = true →
      Holds k (h.setRunning false) ∧ (h.setRunning false).service.isSome = true :=
    fun h hh => ⟨hh.1.setRunning false, by rw [Host.setRunning, Option.isSome_map]; exact hh.2⟩
  refine (Prog.ends_tearable (Q := fun _ (h : Host κ) =>
      Holds k h ∧ h.service.isSome = true) hstop (fun _ hh => hh.1)
    fun h hh => (hstop h hh).1).bind fun _ => ?_
  refine (Prog.ends_read (Q := fun _ (h : Host κ) => Holds k h ∧ h.service.isSome = true)
    fun _ hh => hh).bind fun left => ?_
  refine (Prog.ends_refuseIf (Q := fun _ (h : Host κ) => Holds k h ∧ h.service.isSome = true)
    (fun _ _ hh => hh.1) fun _ _ hh => hh).bind fun _ => ?_
  refine (Prog.ends_command (Q := fun _ (h : Host κ) => Holds k h ∧ h.backup.isSome = true)
    (fun h hh => ?_) fun _ hh => hh.1).bind fun _ => ?_
  · exact ⟨⟨nofun, hh.1.service, .inr hh.2⟩, hh.2⟩
  refine Prog.Ends.bind (R := fun result (h : Host κ) => Holds k h ∧
    match result with
    | .error _ => h.backup.isSome = true
    | .ok _ => h.service.isSome = true) ?_ fun result => ?_
  · exact Prog.ends_caught ((bringUp_holds hnew).weaken (fun _ hh => hh) (fun _ _ hh => hh)
      fun _ hh _ => hh)
  cases result with
  | error e => exact rollback_holds
  | ok _ =>
      refine Prog.ends_attempt (fun _ h hh => ?_) fun _ _ hh => hh.1
      exact ⟨hh.1.service, nofun, .inl hh.2⟩

/-- An update keeps what is held of the container, where the settings are read and Compose does not
manage it. -/
theorem update_holds (hread : f .readSettings = .done) (hmanaged : box.managed k = false) :
    Prog.Ends f (Holds k) (update box) (fun _ => Holds k) (Holds k) := by
  refine (Prog.ends_command (Q := fun _ => Holds k) (fun _ hh => hh) fun _ hh => hh).bind
    fun _ => ?_
  refine (Prog.ends_read (Q := fun found (h : Host κ) => Holds k h ∧ h.service = found)
    fun _ hh => ⟨hh, rfl⟩).bind fun found => ?_
  cases found with
  | none => exact Prog.ends_refuse fun _ hh => hh.1
  | some c =>
      refine Prog.Ends.given (p := c.settings = k) (fun h hh => hh.1.service c hh.2) fun hc => ?_
      refine (Prog.ends_command (Q := fun _ (h : Host κ) => Holds k h ∧ h.service = some c)
        (fun _ hh => hh) fun _ hh => hh.1).bind fun _ => ?_
      refine (Prog.ends_ask (Q := fun asked (h : Host κ) =>
          (Holds k h ∧ h.service = some c) ∧ asked = .done)
        fun _ hh => ⟨hh, hread⟩).bind fun asked => ?_
      refine Prog.Ends.given (p := asked = .done) (fun _ hh => hh.2) fun hasked => ?_
      have hpull : ∀ h : Host κ, (Holds k h ∧ h.service = some c) ∧ asked = .done →
          Holds k (h.pull box.registry c.reference) ∧
            (h.pull box.registry c.reference).service = some c :=
        fun h hh => ⟨⟨hh.1.1.service, hh.1.1.backup, hh.1.1.some⟩, hh.1.2⟩
      refine (Prog.ends_tearable (Q := fun _ (h : Host κ) =>
          Holds k h ∧ h.service = some c) hpull (fun _ hh => hh.1.1)
        fun h hh => (hpull h hh).1).bind fun _ => ?_
      refine (Prog.ends_command (Q := fun _ (h : Host κ) => Holds k h ∧ h.service = some c)
        (fun _ hh => hh) fun _ hh => hh.1).bind fun _ => ?_
      refine (Prog.ends_read (Q := fun _ (h : Host κ) => Holds k h ∧ h.service = some c)
        fun _ hh => hh).bind fun image => ?_
      refine Prog.Ends.ite (fun _ => Prog.ends_pure fun _ hh => hh.1) fun _ => ?_
      refine Prog.Ends.ite (fun hyes => ?_) fun _ => ?_
      · rw [hc, hmanaged] at hyes
        cases hyes
      · refine (swap_holds (by rw [if_pos hasked]; exact hc)).strengthen fun h hh => ⟨hh.1, ?_⟩
        rw [hh.2]
        rfl

/-- **A container with the operator's settings is never lost**: after every run of the updater,
whatever failed in it, one is left under the name of the service or of the backup. -/
theorem settings_never_lost (k : κ) (h : Host κ) (hstart : Holds k h) (events : List (Event κ))
    (howned : Along step (fun _ e => e.OwnedBy k) h events) :
    Throughout step (Holds k) h events := by
  have hkept : ∀ (h : Host κ) (e : Event κ), Holds k h → e.OwnedBy k →
      Holds k (step h e) ∧ Holds k (step h e) := by
    intro h e hh he
    refine and_self_iff.mpr ?_
    cases e with
    | update box script =>
        exact (update_holds he.1 he.2).final (fun _ _ ht => ht) (fun _ ht => ht) hh
    | exits => exact hh.setRunning false
    | restarts => exact hh.setRunning true
  exact ⟨hstart, along_of_invariant step hkept hstart howned⟩

/-! ### The container is up after every run -/

/-- The old container is put back and started. -/
theorem rollback_current (hobeyed : (Event.update box f).Obeyed) (hc : c.running = true) :
    Prog.Ends f (fun h : Host κ => h.backup = some { c with running := false }) rollback
      (fun _ => Current box c) (Current box c) := by
  obtain ⟨-, -, -, hremove, hrename, hstart⟩ := hobeyed
  have hback : { c with running := true } = c := by rw [← hc]
  refine (Prog.ends_attempt (Q := fun _ (h : Host κ) =>
      h.backup = some { c with running := false } ∧ h.service = none)
    (fun _ _ hh => ?_) fun hnot => absurd hremove hnot).bind fun _ => ?_
  · exact ⟨hh, rfl⟩
  refine (Prog.ends_read (Q := fun left (h : Host κ) =>
      h.backup = some { c with running := false } ∧ left = false)
    fun h hh => ⟨hh.1, by rw [hh.2]; rfl⟩).bind fun left => ?_
  refine (Prog.ends_refuseIf (Q := fun _ (h : Host κ) =>
      h.backup = some { c with running := false })
    (fun hleft _ hh => absurd hleft (by rw [hh.2]; decide)) fun _ _ hh => hh.1).bind fun _ => ?_
  refine (Prog.ends_command_done (Q := fun _ (h : Host κ) =>
      h.service = some { c with running := false })
    hrename fun _ hh => ?_).bind fun _ => ?_
  · exact hh
  have hstarts : ∀ h : Host κ, h.service = some { c with running := false } →
      Current box c (h.setRunning true) := by
    intro h hh
    left
    rw [Host.setRunning, hh]
    exact congrArg some hback
  refine Prog.Ends.bind (R := fun _ => Current box c) ?_ fun _ => Prog.ends_refuse fun _ hh => hh
  intro h hh
  unfold Prog.tearable
  dsimp only
  cases hpoint : f .rollbackStart with
  | done => exact hstarts h hh
  | torn => exact hstarts h hh
  | failed => exact absurd hpoint hstart

/-- The new container is up, or the old one is still there as the backup. -/
theorem bringUp_current :
    Prog.Ends f (fun h : Host κ => h.backup = some c) (bringUp box new)
      (fun _ (h : Host κ) => h.service = some { new with running := true } ∧ box.staysUp = true)
      fun h : Host κ => h.backup = some c := by
  refine (Prog.ends_tearable (Q := fun _ (h : Host κ) =>
      h.backup = some c ∧ h.service = some { new with running := box.staysUp })
    (fun _ hh => ?_) (fun _ hh => hh) fun _ hh => ?_).bind fun _ => ?_
  · exact ⟨hh, rfl⟩
  · exact hh
  refine (Prog.ends_command (Q := fun _ (h : Host κ) =>
      h.backup = some c ∧ h.service = some { new with running := box.staysUp })
    (fun _ hh => hh) fun _ hh => hh.1).bind fun _ => ?_
  refine (Prog.ends_read (Q := fun up (h : Host κ) =>
      (h.backup = some c ∧ h.service = some { new with running := box.staysUp }) ∧
        up = box.staysUp) fun h hh => ⟨hh, by rw [hh.2]; rfl⟩).bind
    fun up => ?_
  refine Prog.ends_refuseIf (fun _ _ hh => hh.1.1) fun hup h hh => ?_
  have hstays : box.staysUp = true := by
    rw [← hh.2]
    exact eq_true_of_ne_false hup
  exact ⟨by rw [hh.1.2, hstays], hstays⟩

/-- A swap leaves the old container running or the new one. -/
theorem swap_current (hobeyed : (Event.update box f).Obeyed) (hc : c.running = true)
    (hnew : new = ⟨c.reference, box.registry c.reference, c.settings, true⟩) :
    Prog.Ends f (fun h : Host κ => h.service = some c) (swap box new)
      (fun _ => Current box c) (Current box c) := by
  obtain ⟨hbackup, hstop, hrename, -⟩ := id hobeyed
  refine (Prog.ends_attempt (Q := fun _ (h : Host κ) => h.service = some c ∧ h.backup = none)
    (fun _ _ hh => ?_) fun hnot => absurd hbackup hnot).bind fun _ => ?_
  · exact ⟨hh, rfl⟩
  refine Prog.Ends.bind (R := fun _ (h : Host κ) =>
    h.service = some { c with running := false } ∧ h.backup = none) ?_ fun _ => ?_
  · intro h hh
    unfold Prog.tearable
    dsimp only
    cases hpoint : f .stop with
    | done => exact ⟨by rw [Host.setRunning, hh.1]; rfl, hh.2⟩
    | failed => exact Or.inl hh.1
    | torn => exact absurd hpoint hstop
  refine (Prog.ends_read (Q := fun left (h : Host κ) =>
      h.service = some { c with running := false } ∧ left = false)
    fun h hh => ⟨hh.1, by rw [hh.2]; rfl⟩).bind fun left => ?_
  refine (Prog.ends_refuseIf (Q := fun _ (h : Host κ) =>
      h.service = some { c with running := false })
    (fun hleft _ hh => absurd hleft (by rw [hh.2]; decide)) fun _ _ hh => hh.1).bind fun _ => ?_
  refine (Prog.ends_command_done (Q := fun _ (h : Host κ) =>
      h.backup = some { c with running := false })
    hrename fun _ hh => ?_).bind fun _ => ?_
  · exact hh
  refine Prog.Ends.bind (R := fun result (h : Host κ) =>
    match result with
    | .error _ => h.backup = some { c with running := false }
    | .ok _ => h.service = some { new with running := true } ∧ box.staysUp = true) ?_
      fun result => ?_
  · exact Prog.ends_caught (bringUp_current.weaken (fun _ hh => hh) (fun _ _ hh => hh)
      fun _ hh _ => hh)
  cases result with
  | error e => exact rollback_current hobeyed hc
  | ok _ =>
      have hcurrent : ∀ h : Host κ, h.service = some { new with running := true } ∧
          box.staysUp = true → Current box c h := by
        intro h hh
        refine .inr ⟨?_, hh.2⟩
        rw [hh.1, hnew]
      exact Prog.ends_attempt (fun _ h hh => hcurrent _ hh) fun _ => hcurrent

/-- An update keeps the container current, where its signals are obeyed. -/
theorem update_current (hobeyed : (Event.update box f).Obeyed)
    (howned : (Event.update box f).OwnedBy c.settings) (hc : c.running = true) :
    Prog.Ends f (fun h : Host κ => h.service = some c) (update box) (fun _ => Current box c)
      (Current box c) := by
  refine (Prog.ends_command (Q := fun _ (h : Host κ) => h.service = some c) (fun _ hh => hh)
    fun _ hh => .inl hh).bind fun _ => ?_
  refine (Prog.ends_read (Q := fun found (h : Host κ) => h.service = some c ∧ found = some c)
    fun _ hh => ⟨hh, hh⟩).bind fun found => ?_
  refine Prog.Ends.given (p := found = some c) (fun _ hh => hh.2) fun hfound => ?_
  subst hfound
  refine (Prog.ends_command (Q := fun _ (h : Host κ) => h.service = some c) (fun _ hh => hh.1)
    fun _ hh => .inl hh.1).bind fun _ => ?_
  refine (Prog.ends_ask (Q := fun asked (h : Host κ) => h.service = some c ∧ asked = .done)
    fun _ hh => ⟨hh, howned.1⟩).bind fun asked => ?_
  refine Prog.Ends.given (p := asked = .done) (fun _ hh => hh.2) fun hasked => ?_
  refine (Prog.ends_tearable (Q := fun _ (h : Host κ) =>
      h.service = some c ∧ h.images c.reference = box.registry c.reference)
    (fun _ hh => ⟨hh.1, if_pos rfl⟩) (fun _ hh => .inl hh.1) fun _ hh => .inl hh.1).bind
      fun _ => ?_
  refine (Prog.ends_command (Q := fun _ (h : Host κ) =>
      h.service = some c ∧ h.images c.reference = box.registry c.reference)
    (fun _ hh => hh) fun _ hh => .inl hh.1).bind fun _ => ?_
  refine (Prog.ends_read (Q := fun image (h : Host κ) =>
      h.service = some c ∧ image = box.registry c.reference) fun _ hh => hh).bind fun image => ?_
  refine Prog.Ends.given (p := image = box.registry c.reference) (fun _ hh => hh.2)
    fun himage => ?_
  refine Prog.Ends.ite (fun _ => Prog.ends_pure fun _ hh => .inl hh.1) fun _ => ?_
  refine Prog.Ends.ite (fun hyes => ?_) fun _ => ?_
  · rw [howned.2] at hyes
    cases hyes
  · refine (swap_current hobeyed hc ?_).strengthen fun _ hh => hh.1
    rw [if_pos hasked, himage]

/-- **A bad image is rolled back**: in every run in which Docker obeys, a container that is up is
up after every step, as it was or on the image that was pulled. -/
theorem old_or_new (k : κ) (h : Host κ) (hstart : Holds k h) (hserves : Serves h)
    (events : List (Event κ))
    (hobeyed : Along step (fun _ e => e.OwnedBy k ∧ e.Obeyed) h events) :
    Along step Swaps h events ∧ Throughout step Serves h events := by
  have hlaw : ∀ (h : Host κ) (e : Event κ), Holds k h ∧ Serves h → e.OwnedBy k ∧ e.Obeyed →
      (Swaps h e ∧ Serves (step h e)) ∧ Holds k (step h e) ∧ Serves (step h e) := by
    intro h e hh he
    obtain ⟨hholds, c, hservice, hup⟩ := hh
    have hk : c.settings = k := hholds.service c hservice
    cases e with
    | update box script =>
        have hcurrent : Current box c (step h (.update box script)) :=
          (update_current he.2 (hk ▸ he.1) hup).final (fun _ _ ht => ht) (fun _ ht => ht) hservice
        have hkept : Holds k (step h (.update box script)) :=
          (update_holds he.1.1 he.1.2).final (fun _ _ ht => ht) (fun _ ht => ht) hholds
        have hserves : Serves (step h (.update box script)) := by
          rcases hcurrent with hold | hnew
          · exact ⟨c, hold, hup⟩
          · exact ⟨_, hnew.1, rfl⟩
        refine ⟨⟨fun d hd _ => ?_, hserves⟩, hkept, hserves⟩
        obtain rfl := Option.some.inj (hservice.symm.trans hd)
        exact hcurrent
    | exits => exact he.2.elim
    | restarts =>
        have hsame : (step h .restarts).service = some c := by
          change (h.setRunning true).service = some c
          rw [Host.setRunning, hservice, Option.map_some, ← hup]
        have hserves : Serves (step h .restarts) := ⟨c, hsame, hup⟩
        refine ⟨⟨fun d hd _ => ?_, hserves⟩, hholds.setRunning true, hserves⟩
        obtain rfl := Option.some.inj (hservice.symm.trans hd)
        exact hsame
  have hboth := along_of_invariant step hlaw ⟨hstart, hserves⟩ hobeyed
  exact ⟨along_mono step (fun _ _ hh => hh.1) hboth, hserves,
    along_mono step (fun _ _ hh => hh.2) hboth⟩

end Rules

/-! ### Two runs -/

section TwoRuns

/-- A container with the operator's volumes and ports, on the image `old`. -/
def settledHost : Host String :=
  ⟨some ⟨"adguard/adguardhome", "old", "volumes and ports", true⟩, none, fun _ => "old"⟩

/-- The registry has the given image, which comes up or not. -/
def boxWith (image : String) (staysUp : Bool) : Box String :=
  ⟨fun _ => image, fun _ => false, fun h => h, "", staysUp⟩

/-- Docker fails to put the old container back. -/
theorem unfinished_rollback_keeps_settings :
    Throughout step (Holds "volumes and ports") settledHost
      [.update (boxWith "bad" false) (failingAt .rollbackRename),
        .update (boxWith "good" true) allDone] := by
  refine settings_never_lost _ _
    ⟨fun c hc => ?_, fun c hc => ?_, .inl rfl⟩ _ ?_
  · obtain rfl := Option.some.inj hc
    rfl
  · cases (hc : none = some c)
  · exact ⟨⟨rfl, rfl⟩, ⟨rfl, rfl⟩, trivial⟩

/-- A bad image, and then a good one. -/
theorem bad_image_then_good_one :
    Along step Swaps settledHost
        [.update (boxWith "bad" false) allDone, .update (boxWith "good" true) allDone] ∧
      Throughout step Serves settledHost
        [.update (boxWith "bad" false) allDone, .update (boxWith "good" true) allDone] := by
  refine old_or_new "volumes and ports" _
    ⟨fun c hc => ?_, fun c hc => ?_, .inl rfl⟩ ⟨_, rfl, rfl⟩ _ ?_
  · obtain rfl := Option.some.inj hc
    rfl
  · cases (hc : none = some c)
  · have hobeyed : ∀ box : Box String, (Event.update box allDone).Obeyed :=
      fun _ => ⟨rfl, by decide, rfl, rfl, rfl, by decide⟩
    exact ⟨⟨⟨rfl, rfl⟩, hobeyed _⟩, ⟨⟨rfl, rfl⟩, hobeyed _⟩, trivial⟩

end TwoRuns

end AdguardAdmin.OnBoxUpdater
