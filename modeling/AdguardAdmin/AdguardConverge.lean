import AdguardAdmin.RunLaws
import AdguardAdmin.AdguardInstances
/-!
# AdGuard answers for its own spec

A converge takes an answer on 127.0.0.1 for the answer of the instance it manages.
Here it is one: no other instance can answer at the port.  Under that condition the
wizard and the check of the credentials reach the right instance, the file is edited
while the instance is down, and it comes up again on what the file then says.

* `Steady` — the instance in one slot is the only one that can answer at a port;
* `wizardOrVerify_ends` — what the wizard or the check of the credentials leaves;
* `convergeHostNetwork_ends`, `convergeUnit_ends` — a converge once the instance is up.
-/

namespace AdguardAdmin.Adguard

open Faulty

/-! ## The only instance at a port -/

/-- No instance but the one in `own` can answer at the port, and none is kept on the
same file. -/
def Alone (own : Slot) (port : Int) (h : Host) : Prop :=
  ∀ slot, slot ≠ own → ∀ i ∈ h.inst slot,
    Silent port (h.yaml slot.home) i ∧ (slot.home = own.home → i.kept = false)

/-- The instance in `own` is alone at the port, on the file `y`. -/
structure Steady (own : Slot) (port : Int) (y : Yaml) (h : Host) : Prop where
  honest : Honest h
  alone : Alone own port h
  yaml : h.yaml own.home = y

/-- What happens by itself lets no second instance onto the port. -/
theorem Alone.stays {own : Slot} {port : Int} {h t : Host} (halone : Alone own port h)
    (hstays : Stays h t) : Alone own port t := by
  intro slot hslot i hi
  have hheld : t.held slot = h.held slot := congrFun hstays.held slot
  obtain ⟨j, hj, hsame⟩ : ∃ j ∈ h.inst slot, j.held = i.held := by
    unfold Host.held at hheld
    rw [Option.mem_def.mp hi] at hheld
    obtain ⟨j, hj, hsame⟩ := Option.map_eq_some_iff.mp hheld.symm
    exact ⟨j, hj, hsame⟩
  obtain ⟨hsilent, hkept⟩ := halone slot hslot j hj
  rw [hstays.yaml]
  exact ⟨hsilent.congr hsame.symm, fun hhome => (Prod.mk.inj hsame).2 ▸ hkept hhome⟩

section Steadiness

variable {own : Slot} {port : Int} {y : Yaml} {h : Host}

theorem stable_steady : Stable (Steady own port y) := fun _ _ hstays hh =>
  ⟨hstays.honest hh.honest, hh.alone.stays hstays, by rw [hstays.yaml, hh.yaml]⟩

/-- No other instance runs on the same file. -/
theorem Steady.down (hh : Steady own port y h) {slot : Slot} (hslot : slot ≠ own)
    (hhome : slot.home = own.home) {i : Instance} (hi : i ∈ h.inst slot) : i.process = .down :=
  (hh.honest slot i hi).down ((hh.alone slot hslot i hi).2 hhome)

/-- An edit that keeps the instance honest keeps it the only one at its port. -/
theorem Steady.edit (hh : Steady own port y h) {g : Instance → Instance}
    (hg : ∀ i, i.Honest (h.yaml own.home) → (g i).Honest (h.yaml own.home)) :
    Steady own port y (h.edit g own) where
  honest := hh.honest.edit hg
  alone slot hslot i hi := by
    rw [Host.inst_edit_ne hslot] at hi
    rw [Host.yaml_edit]
    exact hh.alone slot hslot i hi
  yaml := by rw [Host.yaml_edit, hh.yaml]

/-- The file may change while the instance is down. -/
theorem Steady.setYaml (hh : Steady own port y h) (hdown : ∀ i ∈ h.inst own, i.process = .down)
    (z : Yaml) : Steady own port z (h.setYaml own.home z) where
  honest := by
    refine hh.honest.setYaml fun slot hhome i hi => ?_
    by_cases hslot : slot = own
    · subst hslot
      exact hdown i hi
    · exact hh.down hslot hhome hi
  alone slot hslot i hi := by
    rw [Host.inst_setYaml] at hi
    obtain ⟨hsilent, hkept⟩ := hh.alone slot hslot i hi
    by_cases hhome : slot.home = own.home
    · exact ⟨Silent.of_not_kept (hkept hhome), hkept⟩
    · rw [Host.yaml_setYaml_ne hhome]
      exact ⟨hsilent, hkept⟩
  yaml := Host.yaml_setYaml

/-- The instance that answers at a port. -/
theorem exists_of_answerer {slot : Slot} (hslot : h.answerer port = some slot) :
    ∃ i ∈ h.inst slot, i.hostPort = some port := by
  unfold Host.answerer at hslot
  have hany := List.find?_some hslot
  cases hinst : h.inst slot with
  | none =>
      rw [hinst] at hany
      exact absurd hany Bool.false_ne_true
  | some i =>
      rw [hinst] at hany
      exact ⟨i, rfl, of_decide_eq_true hany⟩

/-- What answers on the port is this instance. -/
theorem Steady.answerer_eq (hh : Steady own port y h) {slot : Slot}
    (hslot : h.answerer port = some slot) : slot = own := by
  obtain ⟨i, hi, hport⟩ := exists_of_answerer hslot
  by_contra hne
  exact ((hh.alone slot hne i hi).1.not_answering (hh.honest slot i hi)).2 hport

/-- A process that is up belongs to an instance. -/
theorem mem_of_process {slot : Slot} {p : Process} (hp : p ≠ .down)
    (hprocess : h.process slot = p) : ∃ i ∈ h.inst slot, i.process = p := by
  unfold Host.process at hprocess
  cases hinst : h.inst slot with
  | none =>
      rw [hinst] at hprocess
      exact absurd hprocess.symm hp
  | some i =>
      rw [hinst] at hprocess
      exact ⟨i, rfl, hprocess⟩

/-- A wizard that answers, at whatever port, is the instance's own, and has no file. -/
theorem Steady.wizardAt_eq (hh : Steady own port y h) {setup : Int} {slot : Slot}
    (hslot : h.wizardAt setup = some slot) : slot = own ∧ y = .missing := by
  obtain ⟨-, hwizard⟩ := Option.filter_eq_some_iff.mp hslot
  have hslotWizard : h.process slot = .wizard := of_decide_eq_true hwizard
  obtain ⟨i, hi, hprocess⟩ := mem_of_process (by decide) hslotWizard
  have hhonest := hh.honest slot i hi
  have hown : slot = own := by
    by_contra hne
    exact ((hh.alone slot hne i hi).1.not_answering hhonest).1 hprocess
  subst hown
  simp only [Instance.Honest, hprocess] at hhonest
  exact ⟨rfl, hh.yaml.symm.trans hhonest.2⟩

/-- The wizard writes the file and starts to serve from it. -/
theorem Steady.configure (hh : Steady own port y h) (body : ConfigureBody) :
    Steady own port (.conf body.binds [(body.username, body.password)]) (h.configure own body) := by
  have hexit : Steady own port y (h.edit Instance.exit own) :=
    hh.edit fun _ _ => Instance.honest_of_down rfl
  have hdown : ∀ i ∈ (h.edit Instance.exit own).inst own, i.process = .down := by
    intro i hi
    rw [Host.inst_edit_self] at hi
    obtain ⟨j, -, rfl⟩ := Option.mem_map.mp hi
    rfl
  have hswap : h.configure own body = (h.edit Instance.exit own).setYaml own.home
      (.conf body.binds [(body.username, body.password)]) := by cases own <;> rfl
  rw [hswap]
  exact hexit.setYaml hdown _

end Steadiness

/-! ## Waiting and asking -/

/-- The instance in `own` runs configured and accepts the spec's credentials. -/
def Accepted (own : Slot) (s : Spec) (h : Host) : Prop :=
  ∃ binds users, h.process own = .configured binds users ∧
    accepts users s.adminUsername s.adminPassword = true

/-- Where a steady instance may have been answered in its wizard. -/
def Reached (own : Slot) (port : Int) (y : Yaml) (h : Host) : Prop :=
  ∃ z, Steady own port z h ∧ (y ≠ .missing → z = y)

section Programs

variable {f : Script Point} {box : Box} {w : Wait} {r : Round} {s : Spec} {own : Slot}
variable {port : Int} {y : Yaml} {I E : Host → Prop}

theorem stable_reached : Stable (Reached own port y) := fun h t hstays ⟨z, hz, hsame⟩ =>
  ⟨z, stable_steady h t hstays hz, hsame⟩

theorem Reached.honest {h : Host} (hh : Reached own port y h) : Honest h := hh.choose_spec.1.honest

/-- Waiting keeps what is stable. -/
theorem settle_ends (hI : Stable I) : Prog.Ends f I (settle box w) (fun _ => I) E :=
  Prog.ends_update fun h hh => hI h _ (stays_foldl h _) hh

/-- Waiting for one of several ports keeps a stable invariant. -/
theorem waitWebAny_ends (hI : Stable I) (hE : ∀ h, I h → E h) {ports : List Int} :
    Prog.Ends f I (waitWebAny box w ports) (fun _ => I) E := by
  refine (settle_ends hI).bind fun _ => ?_
  refine (Prog.ends_command (Q := fun _ => I) (fun _ hh => hh) hE).bind fun _ => ?_
  refine (Prog.ends_read (Q := fun _ => I) fun _ hh => hh).bind fun _ => ?_
  exact Prog.ends_refuseIf (fun _ => hE) fun _ _ hh => hh

theorem waitWeb_ends (hI : Stable I) (hE : ∀ h, I h → E h) :
    Prog.Ends f I (waitWeb box w port) (fun _ => I) E :=
  waitWebAny_ends hI hE

/-- The check returns when the accounts it finds accept the spec's. -/
theorem verify_ends (hI : Stable I) (hE : ∀ h, I h → E h) :
    Prog.Ends f I (verify box r s port)
      (fun _ h => I h ∧ ∃ users, h.usersAt port = some users ∧
        accepts users s.adminUsername s.adminPassword = true) E := by
  refine (settle_ends hI).bind fun _ => ?_
  refine (Prog.ends_command (Q := fun _ => I) (fun _ hh => hh) hE).bind fun _ => ?_
  refine (Prog.ends_read (Q := fun users h => I h ∧ h.usersAt port = users)
    fun _ hh => ⟨hh, rfl⟩).bind fun users => ?_
  refine Prog.Ends.bind (Prog.ends_refuseIf (Q := fun _ h => I h ∧ h.usersAt port = users)
    (fun _ h hh => hE h hh.1) fun _ _ hh => hh) fun _ => ?_
  refine Prog.ends_refuseIf (fun _ h hh => hE h hh.1) fun hany h hh => ⟨hh.1, ?_⟩
  rw [Bool.not_eq_false] at hany
  cases users with
  | none => exact absurd hany Bool.false_ne_true
  | some users => exact ⟨users, hh.2, hany⟩

/-- Only a wizard without a file is answered. -/
theorem runWizard_ends {body : ConfigureBody} (setup : Int) (found : Option Slot) :
    Prog.Ends f (fun h => Steady own port y h ∧ ∀ slot ∈ found, h.wizardAt setup = some slot)
      (runWizard box r port body found) (fun _ => Reached own port y) Honest := by
  cases found with
  | none => exact Prog.ends_pure fun h hh => ⟨y, hh.1, fun _ => rfl⟩
  | some slot =>
      unfold runWizard
      refine (Prog.ends_command (Q := fun _ h => Steady own port y h ∧ h.wizardAt setup = some slot)
        (fun h hh => ⟨hh.1, hh.2 slot rfl⟩) fun h hh => hh.1.honest).bind fun _ => ?_
      refine (Prog.ends_attempt (Q := fun _ => Reached own port y) ?_ ?_).bind fun _ =>
        waitWeb_ends stable_reached fun _ => Reached.honest
      · rintro - h ⟨hsteady, hfound⟩
        obtain ⟨rfl, hmissing⟩ := hsteady.wizardAt_eq hfound
        exact ⟨_, hsteady.configure body, fun hfile => absurd hmissing hfile⟩
      · rintro - h ⟨hsteady, -⟩
        exact ⟨y, hsteady, fun _ => rfl⟩

/-- Accounts found on the port are those of the file. -/
theorem Steady.accepted {h : Host} (hh : Steady own port y h) {users : Users}
    (husers : h.usersAt port = some users)
    (haccepts : accepts users s.adminUsername s.adminPassword = true) : Accepted own s h := by
  unfold Host.usersAt at husers
  obtain ⟨slot, hslot, hprocess⟩ := Option.bind_eq_some_iff.mp husers
  obtain rfl := hh.answerer_eq hslot
  split at hprocess
  · next binds other hconfigured =>
      obtain rfl := Option.some.inj hprocess
      exact ⟨binds, other, hconfigured, haccepts⟩
  · exact nomatch hprocess

/-- Answering the wizard or checking the credentials ends with the instance itself
having accepted them. -/
theorem wizardOrVerify_ends {setup : Int} {body : ConfigureBody} :
    Prog.Ends f (Steady own port y) (wizardOrVerify box r s setup port body)
      (fun _ h => Reached own port y h ∧ Accepted own s h) Honest := by
  refine (Prog.ends_ask (Q := fun _ => Steady own port y) fun _ hh => hh).bind fun asked => ?_
  refine (Prog.ends_read (Q := fun found h => Steady own port y h ∧ h.wizardAt setup = found)
    fun _ hh => ⟨hh, rfl⟩).bind fun found => ?_
  refine Prog.Ends.bind (R := fun _ => Reached own port y) ?_ fun _ => ?_
  · refine (runWizard_ends setup _).strengthen ?_
    rintro h ⟨hsteady, hfound⟩
    refine ⟨hsteady, fun slot hslot => ?_⟩
    split at hslot
    · exact hfound.trans hslot
    · exact nomatch hslot
  · refine (verify_ends stable_reached fun _ => Reached.honest).entail ?_
    rintro - h ⟨⟨z, hsteady, hsame⟩, users, husers, haccepts⟩
    exact ⟨⟨z, hsteady, hsame⟩, hsteady.accepted husers haccepts⟩

/-- On some file. -/
def SomeFile (own : Slot) (port : Int) (h : Host) : Prop := ∃ y, Steady own port y h

theorem stable_someFile : Stable (SomeFile own port) := fun h t hstays hh =>
  ⟨hh.choose, stable_steady h t hstays hh.choose_spec⟩

/-- A host with a file of the spec's accounts on the port is honest. -/
theorem SomeFile.honest {h : Host} (hh : SomeFile own port h) : Honest h := hh.choose_spec.honest

/-- With its file known it is the only one with that file. -/
theorem SomeFile.on {h : Host} (hh : SomeFile own port h) (hfile : h.yaml own.home = y) :
    Steady own port y h := by
  obtain ⟨z, hsteady⟩ := hh
  obtain rfl := hsteady.yaml.symm.trans hfile
  exact hsteady

/-- The wizard, or the check in its place, ends with accepted accounts. -/
theorem wizardOrVerify_someFile {setup : Int} {body : ConfigureBody} :
    Prog.Ends f (SomeFile own port) (wizardOrVerify box r s setup port body)
      (fun _ h => SomeFile own port h ∧ Accepted own s h) Honest := by
  refine Prog.Ends.exists fun y => wizardOrVerify_ends.entail fun _ h hh => ?_
  obtain ⟨⟨z, hsteady, -⟩, haccepted⟩ := hh
  exact ⟨⟨z, hsteady⟩, haccepted⟩

/-! ## Editing the file -/

/-- A file that was read holds the settings that are returned. -/
theorem readYaml_ends (hE : ∀ h, I h → E h) {home : Home} :
    Prog.Ends f I (readYaml home)
      (fun binds h => I h ∧ ∃ users, h.yaml home = .conf binds users) E := by
  refine (Prog.ends_command (Q := fun _ => I) (fun _ hh => hh) hE).bind fun _ => ?_
  refine (Prog.ends_read (Q := fun file h => I h ∧ h.yaml home = file)
    fun _ hh => ⟨hh, rfl⟩).bind fun file => ?_
  cases file with
  | missing => exact Prog.ends_refuse fun h hh => hE h hh.1
  | garbled => exact Prog.ends_refuse fun h hh => hE h hh.1
  | conf binds users => exact Prog.ends_pure fun h hh => ⟨hh.1, users, hh.2⟩

/-- The instance in `own` is down, and stays so. -/
def Stopped (own : Slot) (port : Int) (h : Host) : Prop :=
  ∃ y, Steady own port y h ∧ ∀ i ∈ h.inst own, i.process = .down

theorem Stopped.honest {h : Host} (hh : Stopped own port h) : Honest h := hh.choose_spec.1.honest

/-- A stop leaves the instance stopped, also when it is torn. -/
theorem stop_ends {point : Point} :
    Prog.Ends f (SomeFile own port)
      (Prog.tearable point (fun h => h.edit Instance.stop own) fun h => h.edit Instance.stop own)
      (fun _ => Stopped own port) Honest := by
  refine Prog.ends_tearable (fun h hh => ?_) (fun _ => SomeFile.honest)
    fun _ hh => hh.honest.stop own
  obtain ⟨y, hsteady⟩ := hh
  refine ⟨y, hsteady.edit fun _ _ => Instance.honest_of_down rfl, fun i hi => ?_⟩
  rw [Host.inst_edit_self] at hi
  obtain ⟨j, -, rfl⟩ := Option.mem_map.mp hi
  rfl

/-- The file names the spec's addresses. -/
def Right (own : Slot) (s : Spec) (h : Host) : Prop :=
  ∃ c : Binds × Users, Steady own s.webPort (.conf c.1 c.2) h ∧ c.1.Matches s.binds

/-- Whatever an edit leaves in the file, nothing runs on it yet. -/
theorem applyFile_ends {torn : Yaml} :
    Prog.Ends f (Stopped own s.webPort) (applyFile own.home s.binds torn) (fun _ => Right own s)
      Honest := by
  refine (Prog.ends_command (Q := fun _ => Stopped own s.webPort)
    (fun _ hh => hh) fun _ => Stopped.honest).bind fun _ => ?_
  refine (Prog.ends_read (Q := fun _ => Stopped own s.webPort) fun _ hh => hh).bind fun file => ?_
  cases file with
  | missing => exact Prog.ends_refuse fun _ => Stopped.honest
  | garbled => exact Prog.ends_refuse fun _ => Stopped.honest
  | conf binds users =>
      refine Prog.ends_tearable (fun h hh => ?_) (fun _ => Stopped.honest) fun h hh => ?_
      · obtain ⟨y, hsteady, hdown⟩ := hh
        exact ⟨(s.binds, users), hsteady.setYaml hdown _, Binds.Matches.refl _⟩
      · obtain ⟨y, hsteady, hdown⟩ := hh
        exact (hsteady.setYaml hdown torn).honest

/-- A start leaves the instance with its file. -/
theorem start_ends {point : Point} :
    Prog.Ends f (Steady own port y)
      (Prog.tearable point (fun h => h.edit Instance.start own) fun h => h.edit Instance.start own)
      (fun _ => Steady own port y) Honest :=
  Prog.ends_tearable (fun _ hh => hh.edit fun _ hi => hi.start) (fun _ hh => hh.honest)
    fun _ hh => hh.honest.start own

/-- A start keeps the right accounts on the port, and is honest when it fails. -/
theorem start_right {point : Point} :
    Prog.Ends f (Right own s)
      (Prog.tearable point (fun h => h.edit Instance.start own) fun h => h.edit Instance.start own)
      (fun _ => Right own s) Honest := by
  refine Prog.Ends.exists fun c => ?_
  refine Prog.Ends.given (p := c.1.Matches s.binds) (fun _ hh => hh.2) fun hbinds => ?_
  exact start_ends.weaken (fun _ hh => hh.1) (fun _ _ hh => ⟨c, hh, hbinds⟩) fun _ hh => hh

/-! ## Serving the spec -/

def Spec.slot (s : Spec) : Slot := if s.installMethod = "docker" then .container else .unit

/-- AdGuard as the spec wants it: its instance runs, has loaded the spec's addresses and
accepts its credentials. -/
def Serves (s : Spec) (h : Host) : Prop :=
  match h.process s.slot with
  | .configured binds users =>
      binds.Matches s.binds ∧ accepts users s.adminUsername s.adminPassword = true
  | _ => False

/-- An instance whose file matches the spec serves it. -/
theorem Steady.serves {h : Host} {binds : Binds} {users : Users} (hown : s.slot = own)
    (hh : Steady own port (.conf binds users) h) (hbinds : binds.Matches s.binds)
    (haccepted : Accepted own s h) : Serves s h := by
  obtain ⟨loaded, known, hprocess, haccepts⟩ := haccepted
  obtain ⟨i, hi, hconfigured⟩ := mem_of_process (by simp) hprocess
  have hfile := (hh.honest own i hi).file_eq hconfigured (hh.yaml ▸ nofun)
  obtain ⟨rfl, rfl⟩ := Yaml.conf.inj (hh.yaml.symm.trans hfile)
  unfold Serves
  rw [hown, hprocess]
  exact ⟨hbinds, haccepts⟩

/-- Once the file is right, whatever answers on the web port has loaded it. -/
theorem finish_ends {r' : Round} {body : ConfigureBody} (hown : s.slot = own) :
    Prog.Ends f (Right own s)
      (do waitWeb box (.web r') s.webPort; wizardOrVerify box r s s.webPort s.webPort body)
      (fun _ h => Honest h ∧ Serves s h) Honest := by
  refine Prog.Ends.exists fun c => ?_
  refine Prog.Ends.given (p := c.1.Matches s.binds) (fun _ hh => hh.2) fun hbinds => ?_
  refine Prog.Ends.bind (R := fun _ => Steady own s.webPort (.conf c.1 c.2)) ?_ fun _ => ?_
  · exact (waitWeb_ends stable_steady fun _ => Steady.honest).strengthen fun _ hh => hh.1
  · refine wizardOrVerify_ends.entail fun _ h hh => ?_
    obtain ⟨⟨z, hsteady, hsame⟩, haccepted⟩ := hh
    obtain rfl := hsame nofun
    exact ⟨hsteady.honest, hsteady.serves hown hbinds haccepted⟩

/-- On the host's network a converge that ends well serves the spec. -/
theorem convergeHostNetwork_ends (hown : s.slot = .container) :
    Prog.Ends f (SomeFile .container s.webPort) (convergeHostNetwork s box)
      (fun _ h => Honest h ∧ Serves s h) Honest := by
  have hE : ∀ h, SomeFile .container s.webPort h ∧ Accepted .container s h → Honest h :=
    fun h hh => hh.1.honest
  refine (waitWebAny_ends stable_someFile fun _ => SomeFile.honest).bind fun _ => ?_
  refine wizardOrVerify_someFile.bind fun _ => ?_
  refine (Prog.ends_command (Q := fun _ h => SomeFile .container s.webPort h ∧
    Accepted .container s h) (fun _ hh => hh) hE).bind fun _ => ?_
  refine (readYaml_ends hE).bind fun current => ?_
  refine Prog.ends_onlyIf (fun _ => ?_) fun hsame h hh => ?_
  · refine (stop_ends.strengthen fun _ hh => hh.1.1).bind fun _ => ?_
    exact applyFile_ends.bind fun _ => start_right.bind fun _ => finish_ends hown
  · -- the file was right already, and the credentials were accepted on it
    obtain ⟨⟨hsteady, haccepted⟩, users, hfile⟩ := hh
    have hbinds : current.Matches s.binds := matches_of_sameBinds (by simpa using hsame)
    exact ⟨hsteady.honest, (hsteady.on hfile).serves hown hbinds haccepted⟩

/-- The first run leaves the unit the only instance at its port. -/
theorem firstRun_ends :
    Prog.Ends f (SomeFile .unit s.webPort) (firstRun s box) (fun _ => SomeFile .unit s.webPort)
      Honest := by
  refine Prog.Ends.bind (R := fun _ => SomeFile .unit s.webPort) ?_ fun _ => ?_
  · exact Prog.Ends.exists fun y => start_ends.entail fun _ _ hh => ⟨y, hh⟩
  · refine (waitWeb_ends stable_someFile fun _ => SomeFile.honest).bind fun _ => ?_
    exact wizardOrVerify_someFile.entail fun _ _ hh => hh.1

/-- With the unit a converge that ends well serves the spec. -/
theorem convergeUnit_ends (hown : s.slot = .unit) :
    Prog.Ends f (SomeFile .unit s.webPort) (convergeUnit s box)
      (fun _ h => Honest h ∧ Serves s h) Honest := by
  refine (Prog.ends_ask (Q := fun _ => SomeFile .unit s.webPort) fun _ hh => hh).bind fun stat => ?_
  refine (Prog.ends_read (Q := fun _ => SomeFile .unit s.webPort) fun _ hh => hh).bind fun file => ?_
  refine Prog.Ends.bind (Prog.ends_onlyIf (fun _ => firstRun_ends) fun _ _ hh => hh) fun _ => ?_
  refine (readYaml_ends fun _ => SomeFile.honest).bind fun current => ?_
  refine Prog.Ends.bind (R := fun _ => Right .unit s) ?_ fun _ => ?_
  · refine Prog.ends_onlyIf (fun _ => ?_) fun hsame h hh => ?_
    · exact (stop_ends.strengthen fun _ hh => hh.1).bind fun _ => applyFile_ends
    · obtain ⟨hsteady, users, hfile⟩ := hh
      exact ⟨(current, users), hsteady.on hfile, matches_of_sameBinds (by simpa using hsame)⟩
  · exact start_right.bind fun _ => finish_ends hown

end Programs

end AdguardAdmin.Adguard
