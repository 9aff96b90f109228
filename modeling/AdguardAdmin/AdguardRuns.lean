import AdguardAdmin.RunLaws
import AdguardAdmin.AdguardConverge
/-!
# Runs of AdGuard converges

A converge takes an answer on 127.0.0.1 for the answer of the instance it manages.  It
is one as long as no other instance of AdGuard can answer there: the other install
method's, or the predecessor of a recreated container when neither stopping nor removing
it took effect, both of which the converge ignores.

* `recreate_ends` — the predecessor is out of the way if one of the two took effect;
* `converge_ends` — one converge;
* `adguard_serves` — every run in which no other instance can answer.
-/

namespace AdguardAdmin.Adguard

open Faulty

/-! ## Recreating the container -/

/-- What is made of the containers of a host, with the unit and the files left alone. -/
theorem Honest.containers {h t : Host} (hh : Honest h) (hunit : t.unit = h.unit)
    (hyaml : t.yaml = h.yaml)
    (hold : ∀ c, t.container = some c ∨ t.previous = some c →
      c.process = .down ∨ h.container = some c ∨ h.previous = some c) : Honest t := by
  have hcontainer : ∀ c, t.container = some c ∨ t.previous = some c →
      c.toInstance.Honest (t.yaml .volume) := by
    intro c hc
    rw [hyaml]
    rcases hold c hc with hdown | hsame | hsame
    · exact Instance.honest_of_down hdown
    · exact hh .container c.toInstance (Option.mem_map_of_mem _ hsame)
    · exact hh .previous c.toInstance (Option.mem_map_of_mem _ hsame)
  intro slot i hi
  cases slot with
  | container =>
      obtain ⟨c, hc, rfl⟩ := Option.mem_map.mp hi
      exact hcontainer c (.inl hc)
  | previous =>
      obtain ⟨c, hc, rfl⟩ := Option.mem_map.mp hi
      exact hcontainer c (.inr hc)
  | unit =>
      change i ∈ t.unit at hi
      rw [hunit] at hi
      rw [hyaml]
      exact hh .unit i hi

/-- A property of the honest hosts that only looks at how the unit is held and at the
files. -/
structure Apart (I : Host → Prop) : Prop where
  honest : ∀ h, I h → Honest h
  kept : ∀ h t, I h → Honest t → t.held .unit = h.held .unit → t.yaml = h.yaml → I t

theorem apart_honest : Apart Honest := ⟨fun _ hh => hh, fun _ _ _ ht _ _ => ht⟩

/-- What holds apart from the container is stable. -/
theorem Apart.stable {I : Host → Prop} (hI : Apart I) : Stable I := fun h t hstays hh =>
  hI.kept h t hh (hstays.honest (hI.honest h hh)) (congrFun hstays.held .unit) hstays.yaml

/-- What happens to the containers alone keeps an invariant apart from them. -/
theorem Apart.containers {I : Host → Prop} (hI : Apart I) {h t : Host} (hh : I h)
    (hunit : t.unit = h.unit) (hyaml : t.yaml = h.yaml)
    (hold : ∀ c, t.container = some c ∨ t.previous = some c →
      c.process = .down ∨ h.container = some c ∨ h.previous = some c) : I t :=
  hI.kept h t hh ((hI.honest h hh).containers hunit hyaml hold)
    (congrArg (Option.map Instance.held) hunit) hyaml

/-- An invariant apart from the container survives its removal. -/
theorem Apart.removeContainer {I : Host → Prop} (hI : Apart I) {h : Host} (hh : I h) :
    I h.removeContainer :=
  hI.containers hh rfl rfl fun c hc => by
    rcases hc with hc | hc
    · exact nomatch hc
    · exact .inr (.inr hc)

/-- An invariant apart from the container survives the removal of the previous one. -/
theorem Apart.removePrevious {I : Host → Prop} (hI : Apart I) {h : Host} (hh : I h) :
    I h.removePrevious :=
  hI.containers hh rfl rfl fun c hc => by
    rcases hc with hc | hc
    · exact .inr (.inl hc)
    · exact nomatch hc

/-- An invariant apart from the container survives its rename. -/
theorem Apart.rename {I : Host → Prop} (hI : Apart I) {h : Host} (hh : I h) : I h.rename :=
  hI.containers hh rfl rfl fun c hc => by
    rcases hc with hc | hc
    · exact nomatch hc
    · exact .inr (.inl hc)

/-- An invariant apart from the container survives a rename back. -/
theorem Apart.renameBack {I : Host → Prop} (hI : Apart I) {h : Host} (hh : I h) :
    I h.renameBack := by
  unfold Host.renameBack
  split
  · refine hI.containers hh rfl rfl fun c hc => ?_
    rcases hc with hc | hc
    · exact .inr (.inr hc)
    · exact nomatch hc
  · exact hh

/-- Docker does not keep the predecessor running. -/
def Retired (h : Host) : Prop := ∀ i ∈ h.inst .previous, i.kept = false

section Recreate

variable {f : Script Point} {s : Spec} {hash : String} {box : Box} {I : Host → Prop}

/-- A container is run where there is none. -/
theorem dockerRun_ends {J E : Host → Prop} (hI : ∀ h, I h → E h) (hJ : ∀ h, J h → E h)
    (hrun : ∀ h kept, I h → h.container = none →
      J { h with container := some (runArgs s hash kept) }) :
    Prog.Ends f I (dockerRun s hash) (fun _ => J) E := by
  refine (Prog.ends_read (Q := fun taken h => I h ∧ h.container.isSome = taken)
    fun _ hh => ⟨hh, rfl⟩).bind fun taken => ?_
  refine Prog.Ends.bind (Prog.ends_refuseIf (Q := fun _ h => I h ∧ h.container = none)
    (fun _ h hh => hI h hh.1) fun hfree h hh => ⟨hh.1, ?_⟩) fun _ => ?_
  · rw [← hh.2] at hfree
    simpa using hfree
  · exact Prog.ends_tearable (fun h hh => hrun h true hh.1 hh.2) (fun h hh => hI h hh.1)
      fun h hh => hJ _ (hrun h false hh.1 hh.2)

/-- A rollback always fails. -/
theorem rollback_ends (hI : Apart I) :
    Prog.Ends f I rollback (fun _ _ => False) I := by
  refine Prog.Ends.bind (R := fun _ => I) ?_ fun _ => ?_
  · exact Prog.ends_attempt (fun _ _ hh => hI.removeContainer hh) fun _ _ hh => hh
  · refine Prog.Ends.bind (R := fun _ => I) ?_ fun _ => ?_
    · exact Prog.ends_attempt (fun _ _ hh => hI.renameBack hh) fun _ _ hh => hh
    · refine Prog.Ends.bind (R := fun _ => I) ?_ fun _ => Prog.ends_refuse fun _ hh => hh
      refine Prog.ends_attempt (fun _ h hh => ?_) fun _ _ hh => hh
      exact hI.kept h _ hh ((hI.honest h hh).start .container) rfl rfl

/-- The predecessor, once stopped, stays so. -/
def Halfway (I : Host → Prop) (f : Script Point) (h : Host) : Prop :=
  I h ∧ (f .stopPrevious = .done → Retired h)

/-- A retired container stays retired. -/
theorem stable_retired : Stable Retired := by
  intro h t hstays hh i hi
  have hheld : t.held .previous = h.held .previous := congrFun hstays.held .previous
  unfold Host.held at hheld
  rw [Option.mem_def.mp hi] at hheld
  obtain ⟨j, hj, hsame⟩ := Option.map_eq_some_iff.mp hheld.symm
  exact (Prod.mk.inj hsame).2 ▸ hh j hj

/-- A recreated container has lost its predecessor if stopping or removing it took
effect; whatever fails, the unit and the files are left alone. -/
theorem recreate_ends (hI : Apart I) :
    Prog.Ends f I (recreate s hash box)
      (fun _ h => I h ∧ (f .stopPrevious = .done ∨ f .removePrevious = .done → Retired h)) I := by
  have hrename : ∀ h, I h → I h.rename := fun _ hh => hI.rename hh
  have hstable : Stable (Halfway I f) := fun h t hstays hh =>
    ⟨hI.stable h t hstays hh.1, fun hdone => stable_retired h t hstays (hh.2 hdone)⟩
  refine Prog.Ends.bind (R := fun _ => I) ?_ fun _ => ?_
  · exact Prog.ends_attempt (fun _ _ hh => hI.removePrevious hh) fun _ _ hh => hh
  refine (Prog.ends_read (Q := fun _ => I) fun _ hh => hh).bind fun leftover => ?_
  refine Prog.Ends.bind (R := fun _ => I)
    (Prog.ends_refuseIf (fun _ _ hh => hh) fun _ _ hh => hh) fun _ => ?_
  refine (Prog.ends_tearable (Q := fun _ => I) hrename (fun _ hh => hh) hrename).bind fun _ => ?_
  refine Prog.Ends.bind (R := fun _ => Halfway I f) ?_ fun _ => ?_
  · refine Prog.ends_attempt (fun _ h hh => ⟨?_, fun _ i hi => ?_⟩)
      fun hskip _ hh => ⟨hh, fun hdone => absurd hdone hskip⟩
    · exact hI.kept h _ hh ((hI.honest h hh).stop .previous) rfl rfl
    · rw [Host.inst_edit_self] at hi
      obtain ⟨j, -, rfl⟩ := Option.mem_map.mp hi
      rfl
  refine Prog.Ends.bind (R := fun _ => Halfway I f) ?_ fun result => ?_
  · refine Prog.ends_caught ?_
    refine Prog.Ends.bind (R := fun _ => Halfway I f) ?_ fun _ => ?_
    · refine dockerRun_ends (J := Halfway I f) (fun _ hh _ => hh) (fun _ hh _ => hh) ?_
      intro h kept hh hnone
      refine ⟨hI.containers hh.1 rfl rfl fun c hc => ?_, hh.2⟩
      rcases hc with hc | hc
      · obtain rfl := Option.some.inj hc
        exact .inl rfl
      · exact .inr (.inr hc)
    · exact waitWeb_ends hstable fun _ hh _ => hh
  cases result with
  | error e =>
      exact (rollback_ends hI).weaken (fun _ hh => hh.1) (fun _ _ hh => hh.elim) fun _ hh => hh
  | ok _ =>
      refine Prog.ends_attempt
        (fun _ h hh => ⟨hI.removePrevious hh.1, fun _ i hi => nomatch hi⟩) ?_
      intro hskip h hh
      refine ⟨hh.1, fun hdone => hh.2 ?_⟩
      exact hdone.resolve_right hskip

end Recreate

/-! ## One converge -/

/-- The container was made for another spec. -/
def Recreates (s : Spec) (hash : String) (h : Host) : Prop := ∃ c ∈ h.container, Outdated s hash c

instance (s : Spec) (hash : String) (h : Host) : Decidable (Recreates s hash h) := by
  unfold Recreates
  infer_instance

/-- No other instance can answer in the place of the spec's: the predecessor of a
container that is recreated is stopped or removed, and every other one is held so that it
cannot answer at the spec's web port. -/
def Guarded (s : Spec) (hash : String) (f : Script Point) (h : Host) : Prop :=
  if s.installMethod = "docker" ∧ Recreates s hash h then
    (∀ i ∈ h.unit, Silent s.webPort (h.yaml .native) i) ∧
      (f .stopPrevious = .done ∨ f .removePrevious = .done)
  else Alone s.slot s.webPort h

section Converge

variable {f : Script Point} {s : Spec} {hash : String} {box : Box}

/-- Where an enabled spec of the container finds it. -/
def Found (s : Spec) (hash : String) (f : Script Point) (c : Option Container) (h : Host) : Prop :=
  (Honest h ∧ Guarded s hash f h) ∧ (c = none ∨ h.container = c)

/-- The state of the container is read as it is. -/
theorem containerState_ends {I E : Host → Prop} (hE : ∀ h, I h → E h) :
    Prog.Ends f I containerState (fun c h => I h ∧ (c = none ∨ h.container = c)) E := by
  refine (Prog.ends_ask (Q := fun _ => I) fun _ hh => hh).bind fun answer => ?_
  refine Prog.Ends.bind (R := fun _ => I)
    (Prog.ends_refuseIf (fun _ => hE) fun _ _ hh => hh) fun _ => ?_
  refine (Prog.ends_read (Q := fun container h => I h ∧ h.container = container)
    fun _ hh => ⟨hh, rfl⟩).bind fun container => ?_
  refine Prog.ends_pure fun h hh => ⟨hh.1, ?_⟩
  split
  · exact .inr hh.2
  · exact .inl rfl

/-- Where nothing is made anew the guard leaves one instance at the port. -/
theorem alone_of_guarded {h : Host} (hguarded : Guarded s hash f h)
    (hkeeps : ¬ (s.installMethod = "docker" ∧ Recreates s hash h)) : Alone s.slot s.webPort h := by
  unfold Guarded at hguarded
  rwa [if_neg hkeeps] at hguarded

/-- A new container in an empty place. -/
theorem Steady.run {port : Int} {h : Host} {kept : Bool} (hhonest : Honest h)
    (halone : Alone .container port h) :
    SomeFile .container port { h with container := some (runArgs s hash kept) } := by
  refine ⟨h.yaml .volume, ?_, ?_, rfl⟩
  · refine hhonest.containers rfl rfl fun c hc => ?_
    rcases hc with hc | hc
    · obtain rfl := Option.some.inj hc
      exact .inl rfl
    · exact .inr (.inr hc)
  · intro slot hslot i hi
    cases slot with
    | container => exact absurd rfl hslot
    | previous => exact halone .previous hslot i hi
    | unit => exact halone .unit hslot i hi

/-- The unit cannot answer at the port. -/
def UnitSilent (port : Int) (h : Host) : Prop :=
  Honest h ∧ ∀ i ∈ h.inst .unit, Silent port (h.yaml .native) i

/-- A silent unit is silent apart from the container. -/
theorem apart_unitSilent {port : Int} : Apart (UnitSilent port) where
  honest _ hh := hh.1
  kept h t hh ht hheld hyaml := by
    refine ⟨ht, fun i hi => ?_⟩
    unfold Host.held at hheld
    rw [Option.mem_def.mp hi] at hheld
    obtain ⟨j, hj, hsame⟩ := Option.map_eq_some_iff.mp hheld.symm
    rw [hyaml]
    exact (hh.2 j hj).congr hsame.symm

/-- While the unit is silent the container is the only instance. -/
theorem UnitSilent.someFile {port : Int} {h : Host} (hh : UnitSilent port h) (hretired : Retired h) :
    SomeFile .container port h := by
  refine ⟨h.yaml .volume, hh.1, ?_, rfl⟩
  intro slot hslot i hi
  cases slot with
  | container => exact absurd rfl hslot
  | previous => exact ⟨Silent.of_not_kept (hretired i hi), fun _ => hretired i hi⟩
  | unit => exact ⟨hh.2 i hi, nofun⟩

/-- A container that is brought up is the only instance at its port. -/
theorem bringContainerUp_ends (hmethod : s.installMethod = "docker") (c : Option Container) :
    Prog.Ends f (Found s hash f c) (bringContainerUp s hash box c)
      (fun _ => SomeFile .container s.webPort) Honest := by
  have hown : s.slot = .container := if_pos hmethod
  cases c with
  | none =>
      refine dockerRun_ends (fun h hh => hh.1.1) (fun _ => SomeFile.honest)
        fun h kept hh hnone => ?_
      have hkeeps : ¬ (s.installMethod = "docker" ∧ Recreates s hash h) := by
        intro ⟨_, c, hc, _⟩
        exact nomatch hc.symm.trans hnone
      exact Steady.run hh.1.1 (hown ▸ alone_of_guarded hh.1.2 hkeeps)
  | some c =>
      refine Prog.Ends.ite (fun houtdated => ?_) fun hcurrent => ?_
      · refine Prog.Ends.given (p := f .stopPrevious = .done ∨ f .removePrevious = .done) ?_ ?_
        · intro h hh
          have hguarded := hh.1.2
          unfold Guarded at hguarded
          rw [if_pos ⟨hmethod, c, hh.2.resolve_left nofun, houtdated⟩] at hguarded
          exact hguarded.2
        · intro hdone
          refine (recreate_ends apart_unitSilent).weaken (fun h hh => ?_)
            (fun _ h hh => hh.1.someFile (hh.2 hdone)) fun h hh => hh.1
          have hguarded := hh.1.2
          unfold Guarded at hguarded
          rw [if_pos ⟨hmethod, c, hh.2.resolve_left nofun, houtdated⟩] at hguarded
          exact ⟨hh.1.1, hguarded.1⟩
      · refine Prog.Ends.strengthen (P := SomeFile .container s.webPort) ?_ fun h hh => ?_
        · refine Prog.ends_onlyIf (fun _ => ?_) fun _ _ hh => hh
          exact Prog.Ends.exists fun y => start_ends.entail fun _ _ hh => ⟨y, hh⟩
        · have hkeeps : ¬ (s.installMethod = "docker" ∧ Recreates s hash h) := by
            intro ⟨_, c', hc', houtdated⟩
            obtain rfl := Option.some.inj (hc'.symm.trans (hh.2.resolve_left nofun))
            exact hcurrent houtdated
          exact ⟨h.yaml .volume, hh.1.1, hown ▸ alone_of_guarded hh.1.2 hkeeps, rfl⟩

/-- The specs the promise is about: the container on the host's network, or the unit. -/
def OnHost (s : Spec) : Prop := s.installMethod = "docker" → s.network = "host"

instance (s : Spec) : Decidable (OnHost s) := inferInstanceAs (Decidable (_ → _))

/-- What a converge may rely on. -/
def Before (s : Spec) (hash : String) (f : Script Point) (h : Host) : Prop :=
  Honest h ∧ (s.enabled = true → Guarded s hash f h)

/-- What a successful converge leaves. -/
def After (s : Spec) (h : Host) : Prop :=
  Honest h ∧ (s.enabled = true → OnHost s → Serves s h)

/-- A stop leaves the host honest. -/
theorem stopAny_ends {point : Point} {slot : Slot} :
    Prog.Ends f Honest
      (Prog.tearable point (fun h => h.edit Instance.stop slot) fun h => h.edit Instance.stop slot)
      (fun _ => Honest) Honest :=
  Prog.ends_tearable (fun _ hh => hh.stop slot) (fun _ hh => hh) fun _ hh => hh.stop slot

/-- A converge with docker ends in what is promised of it. -/
theorem convergeDocker_ends (hmethod : s.installMethod = "docker") :
    Prog.Ends f (Before s hash f) (convergeDocker s hash box) (fun _ => After s) Honest := by
  have hown : s.slot = .container := if_pos hmethod
  refine (Prog.ends_command (Q := fun _ => Before s hash f) (fun _ hh => hh)
    fun _ hh => hh.1).bind fun _ => ?_
  refine (containerState_ends fun _ hh => hh.1).bind fun c => ?_
  refine Prog.Ends.ite (fun henabled => ?_) fun hdisabled => ?_
  · refine ((bringContainerUp_ends hmethod c).strengthen fun h hh =>
      ⟨⟨hh.1.1, hh.1.2 henabled⟩, hh.2⟩).bind fun _ => ?_
    refine Prog.Ends.ite (fun hbridge => ?_) fun _ => ?_
    · refine (waitWeb_ends stable_someFile fun _ => SomeFile.honest).bind fun _ => ?_
      refine wizardOrVerify_someFile.entail fun _ h hh => ⟨hh.1.honest, fun _ honhost => ?_⟩
      exact absurd (hbridge.symm.trans (honhost hmethod)) (by decide)
    · exact (convergeHostNetwork_ends hown).entail fun _ h hh => ⟨hh.1, fun _ _ => hh.2⟩
  · have hafter : ∀ h, Honest h → After s h := fun h hh =>
      ⟨hh, fun henabled => absurd henabled hdisabled⟩
    refine Prog.ends_onlyIf (fun _ => ?_) fun _ h hh => hafter h hh.1.1
    exact stopAny_ends.weaken (fun h hh => hh.1.1) (fun _ => hafter) fun _ hh => hh

/-- The installer starts a unit where there was none. -/
theorem Steady.install {port : Int} {y : Yaml} {h : Host} (hh : Steady .unit port y h)
    (kept : Bool) : Steady .unit port y (h.install kept) := by
  unfold Host.install
  split
  · exact hh
  · refine ⟨fun slot i hi => ?_, fun slot hslot i hi => ?_, hh.yaml⟩
    · cases slot with
      | container => exact hh.honest .container i hi
      | previous => exact hh.honest .previous i hi
      | unit =>
          obtain rfl := Option.some.inj hi
          exact Instance.honest_of_down rfl
    · cases slot with
      | container => exact hh.alone .container hslot i hi
      | previous => exact hh.alone .previous hslot i hi
      | unit => exact absurd rfl hslot

/-- Installing the package changes nothing of that. -/
theorem installBare_ends {port : Int} :
    Prog.Ends f (SomeFile .unit port) installBare (fun _ => SomeFile .unit port) Honest := by
  have hinstall : ∀ kept h, SomeFile .unit port h → SomeFile .unit port (h.install kept) :=
    fun kept h hh => ⟨hh.choose, hh.choose_spec.install kept⟩
  refine (Prog.ends_command (Q := fun _ => SomeFile .unit port) (fun _ hh => hh)
    fun _ => SomeFile.honest).bind fun _ => ?_
  refine (Prog.ends_command (Q := fun _ => SomeFile .unit port) (fun _ hh => hh)
    fun _ => SomeFile.honest).bind fun _ => ?_
  exact Prog.ends_tearable (hinstall true) (fun _ => SomeFile.honest)
    fun h hh => (hinstall false h hh).honest

/-- A converge with the unit ends in what is promised of it. -/
theorem convergeBare_ends (hmethod : s.installMethod ≠ "docker") :
    Prog.Ends f (Before s hash f) (convergeBare s box) (fun _ => After s) Honest := by
  have hown : s.slot = .unit := if_neg hmethod
  refine (Prog.ends_command (Q := fun _ => Before s hash f) (fun _ hh => hh)
    fun _ hh => hh.1).bind fun _ => ?_
  refine (Prog.ends_ask (Q := fun _ => Before s hash f) fun _ hh => hh).bind fun stat => ?_
  refine (Prog.ends_read (Q := fun _ => Before s hash f) fun _ hh => hh).bind fun installed => ?_
  refine Prog.Ends.ite (fun henabled => ?_) fun hdisabled => ?_
  · refine Prog.Ends.strengthen (P := SomeFile .unit s.webPort) ?_ fun h hh => ?_
    · refine Prog.Ends.bind (Prog.ends_onlyIf (fun _ => installBare_ends) fun _ _ hh => hh) ?_
      intro _
      exact (convergeUnit_ends hown).entail fun _ h hh => ⟨hh.1, fun _ _ => hh.2⟩
    · have hkeeps : ¬ (s.installMethod = "docker" ∧ Recreates s hash h) := fun hdocker =>
        hmethod hdocker.1
      exact ⟨h.yaml .native, hh.1, hown ▸ alone_of_guarded (hh.2 henabled) hkeeps, rfl⟩
  · have hafter : ∀ h, Honest h → After s h := fun h hh =>
      ⟨hh, fun henabled => absurd henabled hdisabled⟩
    refine Prog.ends_onlyIf (fun _ => ?_) fun _ h hh => hafter h hh.1
    exact stopAny_ends.weaken (fun h hh => hh.1) (fun _ => hafter) fun _ hh => hh

/-- One converge, from a host on which no other instance can answer. -/
theorem converge_ends :
    Prog.Ends f (Before s hash f) (converge s hash box) (fun _ => After s) Honest :=
  Prog.Ends.ite convergeDocker_ends convergeBare_ends

/-! ## Update and reset -/

/-- An update leaves the host honest. -/
theorem update_ends : Prog.Ends f Honest (update s hash box) (fun _ => Honest) Honest := by
  refine Prog.Ends.ite (fun _ => ?_) fun _ => ?_
  · refine Prog.ends_attempt (fun _ h hh => ?_) fun _ _ hh => hh
    cases h.answerer s.webPort with
    | none => exact hh
    | some slot => exact hh.exit slot
  · refine (Prog.ends_command (Q := fun _ => Honest) (fun _ hh => hh) fun _ hh => hh).bind fun _ => ?_
    refine (containerState_ends fun _ hh => hh).bind fun c => ?_
    refine (Prog.ends_ask (Q := fun _ => Honest) fun _ hh => hh.1).bind fun moved => ?_
    refine Prog.ends_onlyIf (fun _ => ?_) fun _ _ hh => hh
    exact (recreate_ends apart_honest).entail fun _ _ hh => hh.1

/-- A reset keeps a host honest, whatever fails. -/
theorem reset_ends : Prog.Ends f Honest (reset s) (fun _ => Honest) Honest := by
  refine Prog.Ends.ite (fun _ => ?_) fun _ => ?_
  · refine (Prog.ends_command (Q := fun _ => Honest) (fun _ hh => hh) fun _ hh => hh).bind fun _ => ?_
    refine Prog.Ends.bind (R := fun _ => Honest) ?_ fun _ => ?_
    · refine Prog.ends_attempt (fun _ h hh => ?_) fun _ _ hh => hh
      refine hh.containers rfl rfl fun c hc => ?_
      rcases hc with hc | hc
      · exact nomatch hc
      · exact .inr (.inr hc)
    refine Prog.Ends.bind (R := fun _ => Honest) ?_ fun _ => ?_
    · refine Prog.ends_attempt (fun _ h hh => ?_) fun _ _ hh => hh
      refine hh.containers rfl rfl fun c hc => ?_
      rcases hc with hc | hc
      · exact .inr (.inl hc)
      · exact nomatch hc
    refine (Prog.ends_read (Q := fun _ => Honest) fun _ hh => hh).bind fun mounted => ?_
    refine Prog.Ends.bind (R := fun _ => Honest)
      (Prog.ends_refuseIf (fun _ _ hh => hh) fun _ _ hh => hh) fun _ => ?_
    exact Prog.ends_tearable (fun _ hh => hh.setMissing _) (fun _ hh => hh)
      fun _ hh => hh.setMissing _
  · refine Prog.Ends.bind (R := fun _ => Honest) ?_ fun _ => ?_
    · exact Prog.ends_attempt (fun _ _ hh => hh.stop _) fun _ _ hh => hh
    exact Prog.ends_tearable (fun _ hh => hh.setMissing _) (fun _ hh => hh)
      fun _ hh => hh.setMissing _

end Converge

/-! ## Runs -/

/-- One call: a spec as it was sent, its hash, what the call meets and which of its
steps fail. -/
structure Pass where
  raw : Json Int
  hash : String
  box : Box
  script : Script Point

/-- Calls do not overlap; between them, processes come up and exit. -/
inductive Event where
  | converge (p : Pass)
  | update (p : Pass)
  | reset (p : Pass)
  | stir (e : Stir)

/-- What an operation on an accepted spec leaves; a rejected one changes nothing. -/
def Pass.outcome (p : Pass) (op : Spec → Prog Point Host Unit) (h : Host) : Host :=
  match decode p.raw with
  | .error _ => h
  | .ok s => (op s).final p.script h

def step (h : Host) : Event → Host
  | .converge p => p.outcome (fun s => converge s p.hash p.box) h
  | .update p => p.outcome (fun s => update s p.hash p.box) h
  | .reset p => p.outcome reset h
  | .stir e => h.stirred e

/-- In every converge on an enabled spec, no other instance can answer. -/
def Guards (h : Host) : Event → Prop
  | .converge p =>
      match decode p.raw with
      | .error _ => True
      | .ok s => s.enabled = true → Guarded s p.hash p.script h
  | _ => True

/-- The promise of a converge that ends well on an enabled spec of the host's network or
of the unit. -/
def Sound (h : Host) : Event → Prop
  | .converge p =>
      match decode p.raw with
      | .error _ => True
      | .ok s =>
          s.enabled = true → OnHost s → (converge s p.hash p.box).succeeds p.script h = true →
            Serves s ((converge s p.hash p.box).final p.script h)
  | _ => True

/-- A pass keeps a host honest if the operation it runs does. -/
theorem Pass.honest_outcome {p : Pass} {op : Spec → Prog Point Host Unit} {h : Host}
    (hop : ∀ s, Prog.Ends p.script Honest (op s) (fun _ => Honest) Honest) (hh : Honest h) :
    Honest (p.outcome op h) := by
  unfold Pass.outcome
  split
  · exact hh
  · next s _ => exact (hop s).final (fun _ _ ht => ht) (fun _ ht => ht) hh

/-- Every guarded step keeps the processes honest, and a converge its promise. -/
theorem step_sound (h : Host) (e : Event) (hh : Honest h) (hguards : Guards h e) :
    Sound h e ∧ Honest (step h e) := by
  cases e with
  | converge p =>
      unfold Sound
      unfold Guards at hguards
      simp only [step, Pass.outcome]
      cases hdecode : decode p.raw with
      | error e => exact ⟨trivial, hh⟩
      | ok s =>
          simp only [hdecode] at hguards
          have hbefore : Before s p.hash p.script h := ⟨hh, hguards⟩
          refine ⟨fun henabled honhost hok => ?_, ?_⟩
          · have hafter := converge_ends.of_ok hbefore (Prog.succeeds_iff.mp hok)
            exact hafter.2 henabled honhost
          · exact converge_ends.final (fun _ _ ht => ht.1) (fun _ ht => ht) hbefore
  | update p => exact ⟨trivial, p.honest_outcome (fun _ => update_ends) hh⟩
  | reset p => exact ⟨trivial, p.honest_outcome (fun _ => reset_ends) hh⟩
  | stir e => exact ⟨trivial, (stirred_stays h e).honest hh⟩

/-- **A converge that ends well is served by its own instance** in every run, whatever
fails and whatever processes come up or exit, in which no other instance of AdGuard can
answer in its place. -/
theorem adguard_serves (start : Host) (hstart : Honest start) (run : List Event)
    (hguards : RunLaws.Along step Guards start run) : RunLaws.Along step Sound start run :=
  RunLaws.along_of_invariant step step_sound hstart hguards

/-! ### Two runs -/

section Deciding

instance (y : Yaml) : Decidable (∃ binds users, y = .conf binds users) :=
  match y with
  | .missing => isFalse nofun
  | .garbled => isFalse nofun
  | .conf binds users => isTrue ⟨binds, users, rfl⟩

instance (port : Int) (y : Yaml) (i : Instance) : Decidable (Silent port y i) :=
  inferInstanceAs (Decidable (_ → _))

instance (P : Slot → Prop) [DecidablePred P] : Decidable (∀ slot, P slot) :=
  decidable_of_iff (P .container ∧ P .previous ∧ P .unit)
    ⟨fun h slot => by cases slot <;> simp [h], fun h => ⟨h _, h _, h _⟩⟩

instance (own : Slot) (port : Int) (h : Host) : Decidable (Alone own port h) := by
  unfold Alone
  infer_instance

instance (s : Spec) (hash : String) (f : Script Point) (h : Host) :
    Decidable (Guarded s hash f h) := by
  unfold Guarded
  infer_instance

instance (h : Host) (e : Event) : Decidable (Guards h e) := by
  unfold Guards
  split
  · split <;> infer_instance
  · infer_instance

instance (a b : Binds) : Decidable (a.Matches b) :=
  decidable_of_iff ((a.dnsBindHosts ⊆ b.dnsBindHosts ∧ b.dnsBindHosts ⊆ a.dnsBindHosts) ∧
      a.dnsPort = b.dnsPort ∧ a.httpAddress = b.httpAddress)
    ⟨fun h => ⟨fun _ => ⟨fun ha => h.1.1 ha, fun hb => h.1.2 hb⟩, h.2⟩,
      fun h => ⟨⟨fun x => (h.1 x).mp, fun x => (h.1 x).mpr⟩, h.2⟩⟩

instance (s : Spec) (h : Host) : Decidable (Serves s h) := by
  unfold Serves
  split <;> infer_instance

instance (h : Host) (e : Event) : Decidable (Sound h e) := by
  unfold Sound
  split
  · split <;> infer_instance
  · infer_instance

end Deciding

def freshHost : Host := ⟨none, none, none, fun _ => .missing⟩

/-- A container on the host's network that serves DNS on the given addresses. -/
def dockerSpec (dnsBind : List String) : Json Int :=
  .obj [("web_port", .num 8080), ("dns_bind", .strs dnsBind), ("admin_username", .str "admin"),
    ("admin_password", .str "secret")]

/-- The container's process comes up whenever the agent waits. -/
def steadyBox : Box := ⟨fun _ => [.comesUp .container], .garbled⟩

def firstPass : Pass := ⟨dockerSpec ["0.0.0.0"], "first", steadyBox, allDone⟩

/-- Other DNS addresses, while some steps fail. -/
def secondPass (script : Script Point) : Pass :=
  ⟨dockerSpec ["10.0.0.5", "10.0.0.6"], "second", steadyBox, script⟩

/-- The predecessor is not stopped, but it is removed. -/
theorem removed_predecessor_is_no_obstacle :
    RunLaws.Along step Sound freshHost
      [.converge firstPass, .converge (secondPass (failingAt .stopPrevious))] :=
  adguard_serves freshHost (by intro slot i hi; cases slot <;> cases hi) _ (by decide +kernel)

/-- A predecessor that is neither stopped nor removed keeps the addresses of the spec
before, and answers for its successor. -/
theorem predecessor_answers :
    ¬ RunLaws.Along step Sound freshHost
      [.converge firstPass, .converge (secondPass fun p =>
        if p = .stopPrevious ∨ p = .removePrevious then .failed else .done)] := by
  decide +kernel

end AdguardAdmin.Adguard
