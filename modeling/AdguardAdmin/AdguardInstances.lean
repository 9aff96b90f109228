import AdguardAdmin.AdguardRole
/-!
# AdGuard processes and their files

AdGuard takes its settings from its file when it starts, and the agent edits a file only
while no process runs on it.

* `Honest` — a running process is kept, and has the settings of its file unless the file
  is gone;
* `Stays` — what processes do by themselves keeps `Honest`, the files and how every
  instance is held;
* `Silent` — an instance that cannot answer at a port whatever its process does.
-/

namespace AdguardAdmin.Adguard

open Faulty

/-! ## Processes and files -/

/-- A running process is kept, and has the settings of its file or has outlived it. -/
def Instance.Honest (y : Yaml) (i : Instance) : Prop :=
  match i.process with
  | .down => True
  | .wizard => i.kept = true ∧ y = .missing
  | .configured binds users => i.kept = true ∧ (y = .missing ∨ y = .conf binds users)

/-- An instance that is kept at all is configured, and answers at another port. -/
def Silent (port : Int) (y : Yaml) (i : Instance) : Prop :=
  i.kept = true → (∃ binds users, y = .conf binds users) ∧ (i.startOn y).hostPort ≠ some port

section Instances

variable {y : Yaml} {i : Instance}

theorem Instance.honest_of_down (h : i.process = .down) : i.Honest y := by
  simp [Instance.Honest, h]

/-- An instance whose file was not kept is down. -/
theorem Instance.Honest.down (h : i.Honest y) (hkept : i.kept = false) : i.process = .down := by
  unfold Instance.Honest at h
  split at h
  · next hdown => exact hdown
  · exact absurd (hkept.symm.trans h.1) Bool.false_ne_true
  · exact absurd (hkept.symm.trans h.1) Bool.false_ne_true

/-- The settings of a running process are those of a file that is there. -/
theorem Instance.Honest.file_eq {binds : Binds} {users : Users} (h : i.Honest y)
    (hprocess : i.process = .configured binds users) (hfile : y ≠ .missing) :
    y = .conf binds users := by
  simp only [Instance.Honest, hprocess] at h
  exact h.2.resolve_left hfile

/-- An instance that starts serves its file. -/
theorem Instance.honest_startOn (hkept : i.kept = true) : (i.startOn y).Honest y := by
  cases y <;> simp [Instance.startOn, Process.startedOn, Instance.Honest, hkept]

/-- A start keeps an instance honest. -/
theorem Instance.Honest.start (h : i.Honest y) : i.start.Honest y := by
  unfold Instance.Honest at h ⊢
  cases hprocess : i.process with
  | down => simp [Instance.start, hprocess]
  | wizard => simpa [Instance.start, hprocess] using (hprocess ▸ h).2
  | configured binds users => simpa [Instance.start, hprocess] using (hprocess ▸ h).2

/-- An honest instance stays so when its file is missing. -/
theorem Instance.Honest.missing (h : i.Honest y) : i.Honest .missing := by
  unfold Instance.Honest at h ⊢
  cases hprocess : i.process with
  | down => trivial
  | wizard =>
      rw [hprocess] at h
      exact ⟨h.1, rfl⟩
  | configured binds users =>
      rw [hprocess] at h
      exact ⟨h.1, .inl rfl⟩

/-- A silent instance neither answers at the port nor is in its wizard. -/
theorem Silent.not_answering {port : Int} (hsilent : Silent port y i) (h : i.Honest y) :
    i.process ≠ .wizard ∧ i.hostPort ≠ some port := by
  cases hprocess : i.process with
  | down =>
      refine ⟨by simp, ?_⟩
      unfold Instance.hostPort
      cases i.published <;> simp [hprocess, Process.webPort]
  | wizard =>
      simp only [Instance.Honest, hprocess] at h
      obtain ⟨⟨binds, users, hconf⟩, -⟩ := hsilent h.1
      exact nomatch h.2.symm.trans hconf
  | configured binds users =>
      have hkept : i.kept = true := by
        simp only [Instance.Honest, hprocess] at h
        exact h.1
      obtain ⟨⟨binds', users', hconf⟩, hport⟩ := hsilent hkept
      have hfile : y = .conf binds users := h.file_eq hprocess (hconf ▸ nofun)
      have hsame : i.startOn y = i := by
        rw [hfile]
        change { i with process := Process.configured binds users } = i
        rw [← hprocess]
      exact ⟨nofun, hsame ▸ hport⟩

theorem Silent.of_not_kept {port : Int} (h : i.kept = false) : Silent port y i :=
  fun hkept => absurd (h.symm.trans hkept) Bool.false_ne_true

/-- How an instance is held does not change by itself. -/
def Instance.held (i : Instance) : Option Int × Bool := (i.published, i.kept)

/-- Only what an instance holds matters for silence. -/
theorem Silent.congr {port : Int} {j : Instance} (hheld : j.held = i.held)
    (h : Silent port y i) : Silent port y j := by
  obtain ⟨hpublished, hkept⟩ := Prod.mk.inj hheld
  intro hj
  obtain ⟨hconf, hport⟩ := h (hkept ▸ hj)
  refine ⟨hconf, ?_⟩
  unfold Instance.startOn Instance.hostPort at hport ⊢
  rw [hpublished]
  exact hport

end Instances

/-! ## Changing one instance -/

namespace Host

variable {h : Host} {g : Instance → Instance} {slot x : Slot}

theorem inst_edit : (h.edit g slot).inst x = if x = slot then (h.inst slot).map g else h.inst x := by
  cases slot <;> cases x <;> simp [edit, inst, Container.edit, Function.comp_def]

@[simp] theorem inst_edit_self : (h.edit g slot).inst slot = (h.inst slot).map g := by
  rw [inst_edit, if_pos rfl]

theorem inst_edit_ne (hx : x ≠ slot) : (h.edit g slot).inst x = h.inst x := by
  rw [inst_edit, if_neg hx]

@[simp] theorem yaml_edit : (h.edit g slot).yaml = h.yaml := by cases slot <;> rfl

@[simp] theorem inst_setYaml {home : Home} {y : Yaml} : (h.setYaml home y).inst x = h.inst x := by
  cases x <;> rfl

@[simp] theorem yaml_setYaml {home : Home} {y : Yaml} : (h.setYaml home y).yaml home = y :=
  Function.update_self ..

/-- A file that is put leaves the other ones. -/
theorem yaml_setYaml_ne {home other : Home} {y : Yaml} (hne : other ≠ home) :
    (h.setYaml home y).yaml other = h.yaml other :=
  Function.update_of_ne hne ..

/-- How each instance is held. -/
def held (h : Host) (x : Slot) : Option (Option Int × Bool) := (h.inst x).map Instance.held

/-- An edit that keeps what each instance holds keeps what the host holds. -/
theorem held_edit (hg : ∀ i, (g i).held = i.held) : (h.edit g slot).held = h.held := by
  funext x
  unfold held
  rw [inst_edit]
  split
  · next hx => simp [hx, Function.comp_def, hg]
  · rfl

end Host

/-- Every running process has the settings of its file. -/
def Honest (h : Host) : Prop := ∀ slot, ∀ i ∈ h.inst slot, i.Honest (h.yaml slot.home)

/-- An edit that keeps an instance honest keeps the host honest. -/
theorem Honest.edit {h : Host} (hh : Honest h) {g : Instance → Instance} {slot : Slot}
    (hg : ∀ i, i.Honest (h.yaml slot.home) → (g i).Honest (h.yaml slot.home)) :
    Honest (h.edit g slot) := by
  intro x i hi
  rw [Host.yaml_edit]
  rw [Host.inst_edit] at hi
  split at hi
  · next hx =>
      obtain ⟨j, hj, rfl⟩ := Option.mem_map.mp hi
      exact hx ▸ hg j (hh slot j hj)
  · exact hh x i hi

/-- A start keeps a host honest. -/
theorem Honest.start {h : Host} (hh : Honest h) (slot : Slot) :
    Honest (h.edit Instance.start slot) :=
  hh.edit fun _ hi => hi.start

/-- A stop keeps a host honest. -/
theorem Honest.stop {h : Host} (hh : Honest h) (slot : Slot) :
    Honest (h.edit Instance.stop slot) :=
  hh.edit fun _ _ => Instance.honest_of_down rfl

/-- An exit keeps a host honest. -/
theorem Honest.exit {h : Host} (hh : Honest h) (slot : Slot) :
    Honest (h.edit Instance.exit slot) :=
  hh.edit fun _ _ => Instance.honest_of_down rfl

/-- A file may change under instances that are down. -/
theorem Honest.setYaml {h : Host} (hh : Honest h) {home : Home} {y : Yaml}
    (hdown : ∀ slot, slot.home = home → ∀ i ∈ h.inst slot, i.process = .down) :
    Honest (h.setYaml home y) := by
  intro slot i hi
  rw [Host.inst_setYaml] at hi
  by_cases hhome : slot.home = home
  · exact Instance.honest_of_down (hdown slot hhome i hi)
  · rw [Host.yaml_setYaml_ne hhome]
    exact hh slot i hi

/-- Removing a file keeps a host honest. -/
theorem Honest.setMissing {h : Host} (hh : Honest h) (home : Home) :
    Honest (h.setYaml home .missing) := by
  intro slot i hi
  rw [Host.inst_setYaml] at hi
  by_cases hhome : slot.home = home
  · rw [hhome, Host.yaml_setYaml]
    exact (hh slot i hi).missing
  · rw [Host.yaml_setYaml_ne hhome]
    exact hh slot i hi

/-! ## What processes do by themselves -/

/-- Processes may have come up or exited, and nothing else happened. -/
structure Stays (h t : Host) : Prop where
  honest : Honest h → Honest t
  held : t.held = h.held
  yaml : t.yaml = h.yaml

theorem Stays.refl (h : Host) : Stays h h := ⟨id, rfl, rfl⟩

theorem Stays.trans {h t u : Host} (first : Stays h t) (second : Stays t u) : Stays h u :=
  ⟨fun hh => second.honest (first.honest hh), second.held.trans first.held,
    second.yaml.trans first.yaml⟩

/-- One thing that happens by itself leaves the files, and an honest host honest. -/
theorem stirred_stays (h : Host) (e : Stir) : Stays h (h.stirred e) := by
  cases e with
  | comesUp slot =>
      refine ⟨fun hh => hh.edit fun i hi => ?_, Host.held_edit fun i => ?_, Host.yaml_edit⟩
      · dsimp only
        split
        · next hup => exact Instance.honest_startOn hup.1
        · exact hi
      · dsimp only
        split
        · rfl
        · rfl
  | exits slot => exact ⟨fun hh => hh.exit slot, Host.held_edit fun _ => rfl, Host.yaml_edit⟩

/-- Many things that happen by themselves. -/
theorem stays_foldl (h : Host) (stirs : List Stir) : Stays h (stirs.foldl Host.stirred h) := by
  induction stirs generalizing h with
  | nil => exact Stays.refl h
  | cons e rest ih => exact (stirred_stays h e).trans (ih (h.stirred e))

/-- What no process changes by itself. -/
def Stable (I : Host → Prop) : Prop := ∀ h t, Stays h t → I h → I t

end AdguardAdmin.Adguard
