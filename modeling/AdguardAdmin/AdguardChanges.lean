import Mathlib
import AdguardAdmin.AdguardRuns
/-!
# Changing the spec of a container

A converge that finds the container of another spec swaps it and asks for AdGuard at the web port
of the new spec.  The new container starts on the file of its predecessor, which the converge
edits only after AdGuard has answered.

* `converge_leaves` — what a successful converge leaves where no other instance can answer;
* `change_converges_iff` — the next one succeeds exactly if the web port stays.
-/

namespace AdguardAdmin.Adguard

open Faulty GoText

/-! ## The only AdGuard -/

/-- No instance but the container can answer on 127.0.0.1, and it publishes no port. -/
structure Lone (h : Host) : Prop where
  alone : ∀ port, SomeFile .container port h
  published : ∀ i ∈ h.inst .container, i.published = none

/-- The volume has a settings file. -/
def Written (h : Host) : Prop := ∃ binds users, h.yaml .volume = .conf binds users

section Lone

variable {h : Host} {I : Host → Prop}

/-- A host whose other AdGuards are silent, retired and unpublished has only the one in the
container. -/
theorem lone_of_silent (hunit : ∀ port, UnitSilent port h) (hretired : Retired h)
    (hpublished : ∀ i ∈ h.inst .container, i.published = none) : Lone h :=
  ⟨fun port => (hunit port).someFile hretired, hpublished⟩

theorem Lone.honest (hh : Lone h) : Honest h := (hh.alone 0).honest

theorem Lone.retired (hh : Lone h) : Retired h := by
  obtain ⟨y, hsteady⟩ := hh.alone 0
  exact fun i hi => (hsteady.alone .previous (by decide) i hi).2 rfl

theorem Lone.unitSilent (hh : Lone h) (port : Int) : UnitSilent port h := by
  obtain ⟨y, hsteady⟩ := hh.alone port
  exact ⟨hsteady.honest, fun i hi => (hsteady.alone .unit (by decide) i hi).1⟩

/-- What is stirred up by itself leaves the container the only one. -/
theorem stable_lone : Stable Lone := by
  intro h t hstays hh
  refine ⟨fun port => stable_someFile h t hstays (hh.alone port), fun i hi => ?_⟩
  have hheld : t.held .container = h.held .container := congrFun hstays.held .container
  unfold Host.held at hheld
  rw [Option.mem_def.mp hi] at hheld
  obtain ⟨j, hj, hsame⟩ := Option.map_eq_some_iff.mp hheld.symm
  exact (Prod.mk.inj hsame).1.symm.trans (hh.published j hj)

theorem stable_written : Stable Written := by
  rintro h t hstays ⟨binds, users, hfile⟩
  exact ⟨binds, users, by rw [hstays.yaml, hfile]⟩

theorem Stable.and {J : Host → Prop} (hI : Stable I) (hJ : Stable J) :
    Stable fun h => I h ∧ J h :=
  fun h t hstays hh => ⟨hI h t hstays hh.1, hJ h t hstays hh.2⟩

/-- An edit of the container that keeps it honest and unpublished leaves it the only one. -/
theorem Lone.edit (hh : Lone h) {g : Instance → Instance}
    (hg : ∀ i, i.Honest (h.yaml .volume) → (g i).Honest (h.yaml .volume))
    (hpublished : ∀ i, (g i).published = i.published) : Lone (h.edit g .container) := by
  refine ⟨fun port => ?_, fun i hi => ?_⟩
  · obtain ⟨y, hsteady⟩ := hh.alone port
    exact ⟨y, hsteady.edit hg⟩
  · rw [Host.inst_edit_self] at hi
    obtain ⟨j, hj, rfl⟩ := Option.mem_map.mp hi
    exact (hpublished j).trans (hh.published j hj)

theorem Lone.start (hh : Lone h) : Lone (h.edit Instance.start .container) :=
  hh.edit (fun _ hi => hi.start) fun _ => rfl

theorem Lone.stop (hh : Lone h) : Lone (h.edit Instance.stop .container) :=
  hh.edit (fun _ _ => Instance.honest_of_down rfl) fun _ => rfl

/-- The file may be written while the container is down. -/
theorem Lone.setYaml (hh : Lone h) (hdown : ∀ i ∈ h.inst .container, i.process = .down)
    (y : Yaml) : Lone (h.setYaml .volume y) := by
  refine ⟨fun port => ?_, fun i hi => hh.published i ?_⟩
  · obtain ⟨z, hsteady⟩ := hh.alone port
    exact ⟨y, hsteady.setYaml hdown y⟩
  · rwa [Host.inst_setYaml] at hi

/-- The wizard writes the file, and does so in the container. -/
theorem Lone.configure (hh : Lone h) {setup : Int} {slot : Slot}
    (hslot : h.wizardAt setup = some slot) (body : ConfigureBody) :
    Lone (h.configure slot body) ∧ Written (h.configure slot body) := by
  obtain ⟨z, hsteady⟩ := hh.alone 0
  obtain ⟨rfl, -⟩ := hsteady.wizardAt_eq hslot
  refine ⟨⟨fun port => ?_, fun i hi => ?_⟩, body.binds, [(body.username, body.password)], ?_⟩
  · obtain ⟨y, hport⟩ := hh.alone port
    exact ⟨_, hport.configure body⟩
  · rw [Host.configure, Host.inst_edit_self, Host.inst_setYaml] at hi
    obtain ⟨j, hj, rfl⟩ := Option.mem_map.mp hi
    exact hh.published j hj
  · rw [Host.configure, Host.yaml_edit]
    exact Host.yaml_setYaml

end Lone

/-! ## What a successful converge leaves -/

section Leaves

variable {f : Script Point} {box : Box} {r : Round} {s : Spec} {hash : String}
variable {I : Host → Prop}

/-- The wizard, or the check in its place, keeps what is stable and survives the configuration. -/
theorem wizardOrVerify_keeps (hI : Stable I) {setup port : Int} {body : ConfigureBody}
    (hconfigure : ∀ h slot, I h → h.wizardAt setup = some slot → I (h.configure slot body)) :
    Prog.Ends f I (wizardOrVerify box r s setup port body) (fun _ => I) fun _ => True := by
  have hany : ∀ h, I h → True := fun _ _ => trivial
  refine (Prog.ends_ask (Q := fun _ => I) fun _ hh => hh).bind fun asked => ?_
  refine (Prog.ends_read (Q := fun found h => I h ∧ h.wizardAt setup = found)
    fun _ hh => ⟨hh, rfl⟩).bind fun found => ?_
  refine Prog.Ends.bind (R := fun _ => I) ?_ fun _ =>
    (verify_ends hI hany).entail fun _ _ hh => hh.1
  split
  · cases found with
    | none => exact Prog.ends_pure fun _ hh => hh.1
    | some slot =>
        unfold runWizard
        refine (Prog.ends_command (Q := fun _ h => I h ∧ h.wizardAt setup = some slot)
          (fun _ hh => hh) fun _ _ => trivial).bind fun _ => ?_
        refine (Prog.ends_attempt (Q := fun _ => I) (fun _ t hh => hconfigure t slot hh.1 hh.2)
          fun _ _ hh => hh.1).bind fun _ => waitWeb_ends hI hany
  · exact Prog.ends_pure fun _ hh => hh.1

/-- On the host's network a converge leaves the container alone and the file written. -/
theorem convergeHostNetwork_keeps :
    Prog.Ends f Lone (convergeHostNetwork s box) (fun _ h => Lone h ∧ Written h)
      fun _ => True := by
  have hboth : Stable fun h => Lone h ∧ Written h := stable_lone.and stable_written
  refine (waitWebAny_ends stable_lone fun _ _ => trivial).bind fun _ => ?_
  refine (wizardOrVerify_keeps stable_lone
    fun _ _ hh hslot => (hh.configure hslot _).1).bind fun _ => ?_
  refine (Prog.ends_command (Q := fun _ => Lone) (fun _ hh => hh)
    fun _ _ => trivial).bind fun _ => ?_
  refine (readYaml_ends fun _ _ => trivial).bind fun current => ?_
  refine Prog.ends_onlyIf (fun _ => ?_) fun _ h hh => ⟨hh.1, current, hh.2⟩
  refine (Prog.ends_tearable (Q := fun _ h => Lone h ∧ ∀ i ∈ h.inst .container, i.process = .down)
    (fun h hh => ⟨hh.1.stop, fun i hi => ?_⟩) (fun _ _ => trivial) fun _ _ => trivial).bind
      fun _ => ?_
  · rw [Host.inst_edit_self] at hi
    obtain ⟨j, -, rfl⟩ := Option.mem_map.mp hi
    rfl
  refine Prog.Ends.bind (R := fun _ h => Lone h ∧ Written h) ?_ fun _ => ?_
  · -- whatever the file was, what is written is a settings file
    refine (Prog.ends_command (Q := fun _ h => Lone h ∧ ∀ i ∈ h.inst .container, i.process = .down)
      (fun _ hh => hh) fun _ _ => trivial).bind fun _ => ?_
    refine (Prog.ends_read (Q := fun _ h => Lone h ∧ ∀ i ∈ h.inst .container, i.process = .down)
      fun _ hh => hh).bind fun file => ?_
    cases file with
    | missing => exact Prog.ends_refuse fun _ _ => trivial
    | garbled => exact Prog.ends_refuse fun _ _ => trivial
    | conf binds users =>
        exact Prog.ends_tearable
          (fun h hh => ⟨hh.1.setYaml hh.2 _, s.binds, users, Host.yaml_setYaml⟩)
          (fun _ _ => trivial) fun _ _ => trivial
  refine (Prog.ends_tearable (Q := fun _ h => Lone h ∧ Written h)
    (fun h hh => ⟨hh.1.start, ?_⟩) (fun _ _ => trivial) fun _ _ => trivial).bind fun _ => ?_
  · obtain ⟨binds, users, hfile⟩ := hh.2
    exact ⟨binds, users, by rw [Host.yaml_edit, hfile]⟩
  refine (waitWeb_ends hboth fun _ _ => trivial).bind fun _ => ?_
  exact wizardOrVerify_keeps hboth fun _ _ hh hslot => hh.1.configure hslot _

/-- A host on which nothing disturbs the container: the unit cannot answer, no predecessor is
kept, and a container with the hash of the spec is one of the host's network. -/
structure Undisturbed (s : Spec) (hash : String) (h : Host) : Prop where
  silent : ∀ port, UnitSilent port h
  retired : Retired h
  published : ∀ c ∈ h.container, ¬ Outdated s hash c → c.published = none

/-- The spec of a container on the host's network. -/
structure OnHostNetwork (s : Spec) : Prop where
  enabled : s.enabled = true
  method : s.installMethod = "docker"
  network : s.network = "host"

theorem OnHostNetwork.not_bridge (hs : OnHostNetwork s) : s.network ≠ "bridge" := by
  rw [hs.network]
  decide

/-- A silent unit stays silent, whatever is done to the container. -/
theorem apart_silent : Apart fun h => ∀ port, UnitSilent port h where
  honest _ hh := (hh 0).1
  kept _ t hh ht hheld hyaml port := apart_unitSilent.kept _ t (hh port) ht hheld hyaml

theorem runArgs_published (hs : OnHostNetwork s) (kept : Bool) :
    (runArgs s hash kept).published = none :=
  if_neg hs.not_bridge

/-- The container publishes no port. -/
def Unpublished (h : Host) : Prop := ∀ i ∈ h.inst .container, i.published = none

/-- What is stirred up by itself publishes nothing. -/
theorem stable_unpublished : Stable Unpublished := by
  intro h t hstays hh i hi
  have hheld : t.held .container = h.held .container := congrFun hstays.held .container
  unfold Host.held at hheld
  rw [Option.mem_def.mp hi] at hheld
  obtain ⟨j, hj, hsame⟩ := Option.map_eq_some_iff.mp hheld.symm
  exact (Prod.mk.inj hsame).1.symm.trans (hh j hj)

/-- The rollback always ends with an error. -/
theorem rollback_fails {p : Prop} :
    Prog.Ends f (fun _ => p) rollback (fun _ _ => False) fun _ => p := by
  have hattempt : ∀ (point : Point) (effect : Host → Host),
      Prog.Ends f (fun _ => p) (Prog.attempt point effect) (fun _ _ => p) fun _ => p :=
    fun _ _ => Prog.ends_attempt (fun _ _ hp => hp) fun _ _ hp => hp
  exact (hattempt _ _).bind fun _ => (hattempt _ _).bind fun _ => (hattempt _ _).bind fun _ =>
    Prog.ends_refuse fun _ hp => hp

/-- A container that was made anew publishes nothing. -/
theorem recreate_unpublished (hs : OnHostNetwork s) :
    Prog.Ends f I (recreate s hash box) (fun _ => Unpublished) fun _ => True := by
  refine Prog.Ends.bind (R := fun _ _ => True) ?_ fun _ => ?_
  · exact Prog.ends_attempt (fun _ _ _ => trivial) fun _ _ _ => trivial
  refine (Prog.ends_read (Q := fun _ _ => True) fun _ hh => hh).bind fun leftover => ?_
  refine (Prog.ends_refuseIf (Q := fun _ _ => True) (fun _ _ _ => trivial)
    fun _ _ _ => trivial).bind fun _ => ?_
  refine (Prog.ends_tearable (Q := fun _ _ => True) (fun _ _ => trivial) (fun _ _ => trivial)
    fun _ _ => trivial).bind fun _ => ?_
  refine Prog.Ends.bind (R := fun _ _ => True) ?_ fun _ => ?_
  · exact Prog.ends_attempt (fun _ _ _ => trivial) fun _ _ _ => trivial
  refine Prog.Ends.bind (R := fun result h => result.isOk = true → Unpublished h) ?_ fun result => ?_
  · refine Prog.ends_caught ?_
    refine Prog.Ends.bind (R := fun _ => Unpublished) ?_ fun _ => ?_
    · refine dockerRun_ends (fun _ _ _ hok => nomatch hok) (fun _ _ _ hok => nomatch hok) ?_
      intro h kept _ _ i hi
      obtain rfl := Option.some.inj hi
      exact runArgs_published hs kept
    · exact (waitWeb_ends stable_unpublished fun _ _ _ hok => nomatch hok).entail
        fun _ _ hh _ => hh
  cases result with
  | error e => exact rollback_fails.weaken (fun _ _ => trivial) (fun _ _ hh => hh.elim) fun _ hp => hp
  | ok _ => exact Prog.ends_attempt (fun _ _ hh => hh rfl) fun _ _ hh => hh rfl

/-- A container that was brought up is the only AdGuard. -/
theorem bringContainerUp_lone (hs : OnHostNetwork s)
    (hdone : f .stopPrevious = .done ∨ f .removePrevious = .done) (c : Option Container) :
    Prog.Ends f (fun h => Undisturbed s hash h ∧ (c = none ∨ h.container = c))
      (bringContainerUp s hash box c) (fun _ => Lone) fun _ => True := by
  cases c with
  | none =>
      refine dockerRun_ends (fun _ _ => trivial) (fun _ _ => trivial) fun h kept hh hnone => ?_
      have hsilent : ∀ port, UnitSilent port { h with container := some (runArgs s hash kept) } := by
        refine apart_silent.containers hh.1.silent rfl rfl fun c hc => ?_
        rcases hc with hc | hc
        · obtain rfl := Option.some.inj hc
          exact .inl rfl
        · exact .inr (.inr hc)
      refine lone_of_silent hsilent hh.1.retired fun i hi => ?_
      obtain rfl := Option.some.inj hi
      exact runArgs_published hs kept
  | some c =>
      refine Prog.Ends.ite (fun _ => ?_) fun hcurrent => ?_
      · have hsilent : Prog.Ends f
            (fun h => Undisturbed s hash h ∧ (some c = none ∨ h.container = some c))
            (recreate s hash box)
            (fun _ h => (∀ port, UnitSilent port h) ∧
              (f .stopPrevious = .done ∨ f .removePrevious = .done → Retired h))
            fun _ => True :=
          (recreate_ends apart_silent).weaken (fun _ hh => hh.1.silent) (fun _ _ hh => hh)
            fun _ _ => trivial
        refine (hsilent.and (recreate_unpublished hs)).weaken (fun _ hh => hh)
          (fun _ h hh => ?_) fun _ _ => trivial
        exact lone_of_silent hh.1.1 (hh.1.2 hdone) hh.2
      · have hlone : ∀ h, Undisturbed s hash h ∧ (some c = none ∨ h.container = some c) →
            Lone h := by
          intro h hh
          refine lone_of_silent hh.1.silent hh.1.retired fun i hi => ?_
          have hc : h.container = some c := hh.2.resolve_left nofun
          obtain ⟨c', hc', rfl⟩ := Option.mem_map.mp hi
          obtain rfl := Option.some.inj (hc.symm.trans hc')
          exact hh.1.published c hc hcurrent
        refine Prog.ends_onlyIf (fun _ => ?_) fun _ h hh => hlone h hh
        exact Prog.ends_tearable (fun h hh => (hlone h hh).start) (fun _ _ => trivial)
          fun _ _ => trivial

/-- **What a successful converge leaves** where nothing disturbs the container. -/
theorem converge_leaves (hs : OnHostNetwork s)
    (hdone : f .stopPrevious = .done ∨ f .removePrevious = .done) :
    Prog.Ends f (Undisturbed s hash) (converge s hash box) (fun _ h => Lone h ∧ Written h)
      fun _ => True := by
  refine Prog.Ends.ite (fun _ => ?_) fun hmethod => absurd hs.method hmethod
  refine (Prog.ends_command (Q := fun _ => Undisturbed s hash) (fun _ hh => hh)
    fun _ _ => trivial).bind fun _ => ?_
  refine (containerState_ends fun _ _ => trivial).bind fun c => ?_
  refine Prog.Ends.ite (fun _ => ?_) fun hdisabled => absurd hs.enabled hdisabled
  refine (bringContainerUp_lone hs hdone c).bind fun _ => ?_
  exact Prog.Ends.ite (fun hbridge => absurd hbridge hs.not_bridge) fun _ =>
    convergeHostNetwork_keeps

end Leaves

/-! ## The next spec -/

/-- AdGuard comes up in each wait, and does not exit by itself. -/
structure Prompt (box : Box) : Prop where
  comesUp : ∀ w, .comesUp .container ∈ box.stirs w
  stays : ∀ w slot, .exits slot ∉ box.stirs w

/-- The container is kept, alone, and on these settings. -/
structure Sole (b : Binds) (users : Users) (h : Host) : Prop where
  lone : Lone h
  file : h.yaml .volume = .conf b users
  kept : ∃ i ∈ h.inst .container, i.kept = true

/-- AdGuard listens where the file says. -/
def Listens (b : Binds) (users : Users) (h : Host) : Prop :=
  Sole b users h ∧ h.process .container = .configured b users

section Sole

variable {b : Binds} {users : Users} {h : Host} {box : Box} {w : Wait}

/-- The only AdGuard serves from its file in the container. -/
theorem Sole.steady (hh : Sole b users h) (port : Int) :
    Steady .container port (.conf b users) h :=
  (hh.lone.alone port).on hh.file

/-- What is stirred up by itself keeps the only AdGuard. -/
theorem stable_sole : Stable (Sole b users) := by
  intro h t hstays hh
  refine ⟨stable_lone h t hstays hh.lone, by rw [hstays.yaml, hh.file], ?_⟩
  obtain ⟨i, hi, hkept⟩ := hh.kept
  have hheld : t.held .container = h.held .container := congrFun hstays.held .container
  unfold Host.held at hheld
  rw [Option.mem_def.mp hi] at hheld
  obtain ⟨j, hj, hsame⟩ := Option.map_eq_some_iff.mp hheld
  exact ⟨j, hj, (Prod.mk.inj hsame).2.trans hkept⟩

/-- The container's process is down or serves what the file says. -/
theorem Sole.process (hh : Sole b users h) :
    h.process .container = .down ∨ h.process .container = .configured b users := by
  obtain ⟨i, hi, -⟩ := hh.kept
  have hhonest := hh.lone.honest .container i hi
  have hprocess : h.process .container = i.process := by
    rw [Host.process, Option.mem_def.mp hi]
    rfl
  rw [hprocess]
  cases hi' : i.process with
  | down => exact Or.inl rfl
  | wizard =>
      simp only [Instance.Honest, hi'] at hhonest
      cases hhonest.2.symm.trans hh.file
  | configured binds known =>
      have hfile := hhonest.file_eq hi' (by
        have hfile : h.yaml Slot.container.home = _ := hh.file
        simp [hfile])
      obtain ⟨rfl, rfl⟩ := Yaml.conf.inj (hh.file.symm.trans hfile)
      exact Or.inr rfl

/-- A container that is down gets its port when it comes up: nothing else has it. -/
theorem Sole.comesUp (hh : Sole b users h) :
    (h.comesUp .container).process .container = .configured b users := by
  obtain ⟨i, hi, hkept⟩ := hh.kept
  have hprocess : h.process .container = i.process := by
    rw [Host.process, Option.mem_def.mp hi]
    rfl
  have hafter : (h.comesUp .container).process .container =
      (if i.kept = true ∧ i.process = .down ∧
        (((i.startOn (h.yaml .volume)).hostPort.bind h.answerer).isNone) = true then
          i.startOn (h.yaml .volume) else i).process := by
    rw [Host.process, Host.comesUp, Host.inst_edit_self, Option.mem_def.mp hi]
    rfl
  rw [hafter]
  rcases hh.process with hdown | hup
  · have hidle : i.process = .down := hprocess.symm.trans hdown
    have hfree : ((i.startOn (h.yaml .volume)).hostPort.bind h.answerer).isNone = true := by
      rw [Option.isNone_iff_eq_none, Option.bind_eq_none_iff]
      intro port _
      by_contra hother
      obtain ⟨slot, hslot⟩ := Option.ne_none_iff_exists'.mp hother
      obtain rfl := (hh.steady port).answerer_eq hslot
      obtain ⟨j, hj, hport⟩ := exists_of_answerer hslot
      obtain rfl := Option.some.inj ((Option.mem_def.mp hi).symm.trans hj)
      rw [Instance.hostPort, hh.lone.published i hi, hidle] at hport
      cases hport
    rw [if_pos ⟨hkept, hidle, hfree⟩, hh.file]
    rfl
  · have hrunning : i.process = .configured b users := hprocess.symm.trans hup
    rw [if_neg (by simp [hrunning])]
    exact hrunning

/-- One thing that happens by itself keeps the only AdGuard. -/
theorem Sole.stirred (hh : Sole b users h) (e : Stir) : Sole b users (h.stirred e) :=
  stable_sole h _ (stirred_stays h e) hh

/-- A process that listens goes on, unless it exits. -/
theorem Listens.stirred (hh : Listens b users h) {e : Stir} (he : ∀ slot, e ≠ .exits slot) :
    Listens b users (h.stirred e) := by
  refine ⟨hh.1.stirred e, ?_⟩
  cases e with
  | exits slot => exact absurd rfl (he slot)
  | comesUp slot =>
      by_cases hslot : slot = .container
      · subst hslot
        exact hh.1.comesUp
      · have hsame : (h.stirred (.comesUp slot)).inst .container = h.inst .container :=
          Host.inst_edit_ne (Ne.symm hslot)
        rw [Host.process, hsame]
        exact hh.2

/-- After what happens by itself the container listens, when it was up or comes up and does not
exit. -/
theorem listens_foldl {stirs : List Stir} (hstays : ∀ slot, .exits slot ∉ stirs)
    (hh : Sole b users h)
    (hup : h.process .container = .configured b users ∨ .comesUp .container ∈ stirs) :
    Listens b users (stirs.foldl Host.stirred h) := by
  induction stirs generalizing h with
  | nil => exact ⟨hh, hup.resolve_right List.not_mem_nil⟩
  | cons e stirs ih =>
      have hexits : ∀ slot, e ≠ .exits slot := fun slot he =>
        hstays slot (he ▸ List.mem_cons_self)
      have hrest : ∀ slot, .exits slot ∉ stirs := fun slot hmem =>
        hstays slot (List.mem_cons_of_mem _ hmem)
      refine ih hrest (hh.stirred e) ?_
      rcases hup with hup | hup
      · exact Or.inl (Listens.stirred ⟨hh, hup⟩ hexits).2
      · rcases List.mem_cons.mp hup with rfl | hlater
        · exact Or.inl hh.comesUp
        · exact Or.inr hlater

/-- What answers on a port is the container, on the port of its file. -/
theorem Listens.answerer (hh : Listens b users h) (port : Int) :
    h.answerer port = some .container ↔ loopbackPort b.httpAddress = some port := by
  obtain ⟨i, hi, -⟩ := hh.1.kept
  have hprocess : i.process = .configured b users := by
    have hsame := hh.2
    rw [Host.process, Option.mem_def.mp hi] at hsame
    exact hsame
  have hport : i.hostPort = loopbackPort b.httpAddress := by
    rw [Instance.hostPort, hh.1.lone.published i hi, hprocess]
    rfl
  constructor
  · intro hslot
    obtain ⟨j, hj, hat⟩ := exists_of_answerer hslot
    obtain rfl := Option.some.inj ((Option.mem_def.mp hi).symm.trans hj)
    exact hport.symm.trans hat
  · intro hat
    unfold Host.answerer
    rw [List.find?_cons, Option.mem_def.mp hi, Option.any_some, hport, hat, decide_eq_true rfl]

/-- Something answers exactly on that port. -/
theorem Listens.answers (hh : Listens b users h) (port : Int) :
    (h.answerer port).isSome = true ↔ loopbackPort b.httpAddress = some port := by
  rw [← hh.answerer port]
  constructor
  · intro hsome
    obtain ⟨slot, hslot⟩ := Option.isSome_iff_exists.mp hsome
    rw [hslot, (hh.1.steady port).answerer_eq hslot]
  · intro hslot
    rw [hslot]
    rfl

/-- The accounts that are found there are those of the file. -/
theorem Listens.usersAt (hh : Listens b users h) (port : Int) :
    h.usersAt port = if loopbackPort b.httpAddress = some port then some users else none := by
  unfold Host.usersAt
  split_ifs with hat
  · rw [(hh.answerer port).mpr hat, Option.bind_some, hh.2]
  · have hnone : h.answerer port = none := by
      rw [← Option.isNone_iff_eq_none, ← Option.not_isSome, Bool.not_eq_true']
      exact Bool.eq_false_iff.mpr fun hsome => hat ((hh.answers port).mp hsome)
    rw [hnone]
    rfl

/-- A settings file leaves no setup wizard running. -/
theorem Sole.wizardAt (hh : Sole b users h) (setup : Int) : h.wizardAt setup = none := by
  by_contra hfound
  obtain ⟨slot, hslot⟩ := Option.ne_none_iff_exists'.mp hfound
  exact nomatch ((hh.steady 0).wizardAt_eq hslot).2

/-! ### Programs that do not fail by themselves -/

variable {r : Round} {t : Spec} {hash : String} {p : Prop}

theorem settle_listens (hbox : Prompt box) {E : Host → Prop} :
    Prog.Ends allDone (Sole b users) (settle box w) (fun _ => Listens b users) E :=
  Prog.ends_update fun _ hh => listens_foldl (hbox.stays w) hh (Or.inr (hbox.comesUp w))

/-- The wait ends well exactly if AdGuard listens at one of the ports. -/
theorem waitWebAny_sole (hbox : Prompt box) {ports : List Int} :
    Prog.Ends allDone (Sole b users) (waitWebAny box w ports)
      (fun _ h => Sole b users h ∧ ∃ port ∈ ports, loopbackPort b.httpAddress = some port)
      fun _ => ¬ ∃ port ∈ ports, loopbackPort b.httpAddress = some port := by
  have hany : ∀ h, Listens b users h → ((ports.any fun port => (h.answerer port).isSome) = true ↔
      ∃ port ∈ ports, loopbackPort b.httpAddress = some port) := by
    intro h hh
    rw [List.any_eq_true]
    exact exists_congr fun port => and_congr_right fun _ => hh.answers port
  refine (settle_listens hbox).bind fun _ => ?_
  refine (Prog.ends_command_done (Q := fun _ => Listens b users) rfl fun _ hh => hh).bind
    fun _ => ?_
  refine (Prog.ends_read (Q := fun answered h => Listens b users h ∧
    (ports.any fun port => (h.answerer port).isSome) = answered) fun _ hh => ⟨hh, rfl⟩).bind
      fun answered => ?_
  refine Prog.ends_refuseIf (fun hnone h hh => ?_) fun hsome h hh => ⟨hh.1.1, ?_⟩
  · rw [← hany h hh.1, hh.2, hnone]
    exact Bool.false_ne_true
  · rw [← hany h hh.1, hh.2]
    exact Bool.not_eq_false _ ▸ hsome

/-- The check finds its accounts, exactly on the port of the file. -/
theorem verify_sole (hbox : Prompt box) {port : Int}
    (haccepts : accepts users t.adminUsername t.adminPassword = true) :
    Prog.Ends allDone (Sole b users) (verify box r t port)
      (fun _ h => Sole b users h ∧ loopbackPort b.httpAddress = some port)
      fun _ => ¬ loopbackPort b.httpAddress = some port := by
  refine (settle_listens hbox).bind fun _ => ?_
  refine (Prog.ends_command_done (Q := fun _ => Listens b users) rfl fun _ hh => hh).bind
    fun _ => ?_
  refine (Prog.ends_read (Q := fun found h => Sole b users h ∧
    (if loopbackPort b.httpAddress = some port then some users else none) = found)
      fun h hh => ⟨hh.1, (hh.usersAt port).symm⟩).bind fun found => ?_
  refine (Prog.ends_refuseIf (Q := fun _ h => Sole b users h ∧
    loopbackPort b.httpAddress = some port ∧ found = some users) ?_ ?_).bind fun _ => ?_
  · rintro rfl h ⟨-, hfound⟩ hat
    rw [if_pos hat] at hfound
    cases hfound
  · intro hfound h hh
    by_cases hat : loopbackPort b.httpAddress = some port
    · refine ⟨hh.1, hat, ?_⟩
      rw [← hh.2, if_pos hat]
    · rw [if_neg hat] at hh
      exact absurd hh.2.symm hfound
  · refine Prog.ends_refuseIf (fun hrefused h hh => ?_) fun _ h hh => ⟨hh.1, hh.2.1⟩
    rw [hh.2.2, Option.any_some, haccepts] at hrefused
    cases hrefused

/-- The wizard, or the check in its place, ends with the promised accounts on the port. -/
theorem wizardOrVerify_sole (hbox : Prompt box) {setup port : Int} {body : ConfigureBody}
    (haccepts : accepts users t.adminUsername t.adminPassword = true) :
    Prog.Ends allDone (Sole b users) (wizardOrVerify box r t setup port body)
      (fun _ h => Sole b users h ∧ loopbackPort b.httpAddress = some port)
      fun _ => ¬ loopbackPort b.httpAddress = some port := by
  refine (Prog.ends_ask (Q := fun _ => Sole b users) fun _ hh => hh).bind fun asked => ?_
  refine (Prog.ends_read (Q := fun found h => Sole b users h ∧ found = none)
    fun h hh => ⟨hh, hh.wizardAt setup⟩).bind fun found => ?_
  refine Prog.Ends.bind (R := fun _ => Sole b users) ?_ fun _ => verify_sole hbox haccepts
  refine Prog.Ends.given (p := found = none) (fun _ hh => hh.2) fun hnone => ?_
  rw [hnone, ite_self]
  exact Prog.ends_pure fun _ hh => hh.1

/-- The file is read as it is. -/
theorem readYaml_sole {P E : Host → Prop} (hfile : ∀ h, P h → h.yaml .volume = .conf b users) :
    Prog.Ends allDone P (readYaml .volume) (fun binds h => P h ∧ binds = b) E := by
  refine (Prog.ends_command_done (Q := fun _ => P) rfl fun _ hh => hh).bind fun _ => ?_
  refine (Prog.ends_read (Q := fun file h => P h ∧ file = .conf b users)
    fun h hh => ⟨hh, hfile h hh⟩).bind fun file => ?_
  refine Prog.Ends.given (p := file = .conf b users) (fun _ hh => hh.2) fun hconf => ?_
  subst hconf
  exact Prog.ends_pure fun _ hh => ⟨hh.1, rfl⟩

/-- The container is down, on these settings. -/
structure Halted (b : Binds) (users : Users) (h : Host) : Prop where
  lone : Lone h
  file : h.yaml .volume = .conf b users
  there : ∃ i, i ∈ h.inst .container
  down : ∀ i ∈ h.inst .container, i.process = .down

/-- A stopped container leaves the file. -/
theorem Sole.stop (hh : Sole b users h) : Halted b users (h.edit Instance.stop .container) := by
  obtain ⟨i, hi, -⟩ := hh.kept
  refine ⟨hh.lone.stop, by rw [Host.yaml_edit, hh.file], ⟨i.stop, ?_⟩, fun j hj => ?_⟩
  · rw [Host.inst_edit_self]
    exact Option.mem_map_of_mem _ hi
  · rw [Host.inst_edit_self] at hj
    obtain ⟨k, -, rfl⟩ := Option.mem_map.mp hj
    rfl

/-- The file of a halted container may be replaced. -/
theorem Halted.setYaml (hh : Halted b users h) (b' : Binds) :
    Halted b' users (h.setYaml .volume (.conf b' users)) := by
  refine ⟨hh.lone.setYaml hh.down _, Host.yaml_setYaml, ?_, ?_⟩
  · simpa only [Host.inst_setYaml] using hh.there
  · simpa only [Host.inst_setYaml] using hh.down

/-- A halted container serves the file once it is started. -/
theorem Halted.start (hh : Halted b users h) : Sole b users (h.edit Instance.start .container) := by
  obtain ⟨i, hi⟩ := hh.there
  refine ⟨hh.lone.start, by rw [Host.yaml_edit, hh.file], i.start, ?_, rfl⟩
  rw [Host.inst_edit_self]
  exact Option.mem_map_of_mem _ hi

/-- An applied file holds the wanted settings. -/
theorem applyFile_sole {want : Binds} {torn : Yaml} {E : Host → Prop} :
    Prog.Ends allDone (Halted b users) (applyFile .volume want torn)
      (fun _ => Halted want users) E := by
  refine (Prog.ends_command_done (Q := fun _ => Halted b users) rfl fun _ hh => hh).bind
    fun _ => ?_
  refine (Prog.ends_read (Q := fun file h => Halted b users h ∧ file = .conf b users)
    fun h hh => ⟨hh, hh.file⟩).bind fun file => ?_
  refine Prog.Ends.given (p := file = .conf b users) (fun _ hh => hh.2) fun hconf => ?_
  subst hconf
  exact Prog.ends_tearable_done rfl fun _ hh => hh.1.setYaml want

/-- A container on the host's network has AdGuard listen on 127.0.0.1 at its web port. -/
def Local (s : Spec) : Prop := loopbackPort s.binds.httpAddress = some s.webPort

/-- Once AdGuard has answered, the rest of the converge ends well. -/
theorem convergeHostNetwork_sole (hbox : Prompt box) (hlocal : Local t)
    (haccepts : accepts users t.adminUsername t.adminPassword = true) :
    Prog.Ends allDone (Sole b users) (convergeHostNetwork t box)
      (fun _ _ => loopbackPort b.httpAddress = some t.webPort)
      fun _ => ¬ loopbackPort b.httpAddress = some t.webPort := by
  refine Prog.Ends.bind (R := fun _ => Sole b users) ?_ fun _ => ?_
  · refine (waitWebAny_sole hbox).weaken (fun _ hh => hh) (fun _ _ hh => hh.1) fun _ hnone hat => ?_
    exact hnone ⟨t.webPort, List.mem_cons_of_mem _ List.mem_cons_self, hat⟩
  refine (wizardOrVerify_sole hbox haccepts).bind fun _ => ?_
  refine (Prog.ends_command_done (Q := fun _ h => Sole b users h ∧
    loopbackPort b.httpAddress = some t.webPort) rfl fun _ hh => hh).bind fun _ => ?_
  refine (readYaml_sole fun _ hh => hh.1.file).bind fun current => ?_
  refine Prog.ends_onlyIf (fun _ => ?_) fun _ _ hh => hh.1.2
  refine Prog.Ends.given (p := loopbackPort b.httpAddress = some t.webPort)
    (fun _ hh => hh.1.2) fun hat => ?_
  refine (Prog.ends_tearable_done (Q := fun _ => Halted b users) rfl
    fun _ hh => hh.1.1.stop).bind fun _ => ?_
  refine applyFile_sole.bind fun _ => ?_
  refine (Prog.ends_tearable_done (Q := fun _ => Sole t.binds users) rfl
    fun _ hh => hh.start).bind fun _ => ?_
  refine Prog.Ends.bind (R := fun _ => Sole t.binds users) ?_ fun _ => ?_
  · refine (waitWebAny_sole hbox).weaken (fun _ hh => hh) (fun _ _ hh => hh.1) fun _ hnone => ?_
    exact absurd ⟨t.webPort, List.mem_cons_self, hlocal⟩ hnone
  · exact (wizardOrVerify_sole hbox haccepts).weaken (fun _ hh => hh) (fun _ _ _ => hat)
      fun _ hnone => absurd hlocal hnone

/-- The new container starts on the file of the old one, and is asked at the port of the new
spec. -/
theorem recreate_sole (ht : OnHostNetwork t) (hbox : Prompt box) :
    Prog.Ends allDone (Sole b users) (recreate t hash box) (fun _ => Sole b users)
      fun _ => ¬ loopbackPort b.httpAddress = some t.webPort := by
  refine Prog.Ends.bind (R := fun _ h => Sole b users h ∧ h.previous = none) ?_ fun _ => ?_
  · refine Prog.ends_attempt (fun _ h hh => ⟨⟨?_, hh.file, hh.kept⟩, rfl⟩)
      fun hskip => absurd rfl hskip
    exact lone_of_silent (apart_silent.removePrevious hh.lone.unitSilent)
      (fun _ hi => nomatch hi) hh.lone.published
  refine (Prog.ends_read (Q := fun leftover h => Sole b users h ∧ leftover = false)
    fun h hh => ⟨hh.1, by rw [hh.2]; rfl⟩).bind fun leftover => ?_
  refine Prog.Ends.bind (R := fun _ => Sole b users) ?_ fun _ => ?_
  · refine Prog.Ends.given (p := leftover = false) (fun _ hh => hh.2) fun hfree => ?_
    refine Prog.ends_refuseIf (fun htaken => ?_) fun _ _ hh => hh.1
    exact absurd (hfree.symm.trans htaken) Bool.false_ne_true
  refine Prog.Ends.bind (R := fun _ h => (∀ port, UnitSilent port h) ∧
    h.yaml .volume = .conf b users ∧ h.container = none) ?_ fun _ => ?_
  · exact Prog.ends_tearable_done rfl fun h hh =>
      ⟨apart_silent.rename hh.lone.unitSilent, hh.file, rfl⟩
  refine Prog.Ends.bind (R := fun _ h => ((∀ port, UnitSilent port h) ∧
    h.yaml .volume = .conf b users ∧ h.container = none) ∧ Retired h) ?_ fun _ => ?_
  · refine Prog.ends_attempt (fun _ h hh => ⟨⟨?_, ?_, hh.2.2⟩, fun i hi => ?_⟩)
      fun hskip => absurd rfl hskip
    · exact apart_silent.kept h _ hh.1 ((hh.1 0).1.stop .previous) rfl rfl
    · rw [Host.yaml_edit, hh.2.1]
    · rw [Host.inst_edit_self] at hi
      obtain ⟨j, -, rfl⟩ := Option.mem_map.mp hi
      rfl
  refine Prog.Ends.bind (R := fun result h => match result with
    | .ok _ => Sole b users h
    | .error _ => ¬ loopbackPort b.httpAddress = some t.webPort) ?_ fun result => ?_
  · refine Prog.ends_caught ?_
    refine Prog.Ends.bind (R := fun _ => Sole b users) ?_ fun _ => ?_
    · refine (Prog.ends_read (Q := fun taken h => (((∀ port, UnitSilent port h) ∧
        h.yaml .volume = .conf b users ∧ h.container = none) ∧ Retired h) ∧ taken = false)
          fun h hh => ⟨hh, by rw [hh.1.2.2]; rfl⟩).bind fun taken => ?_
      refine Prog.Ends.given (p := taken = false) (fun _ hh => hh.2) fun hfree => ?_
      refine (Prog.ends_refuseIf (Q := fun _ h => ((∀ port, UnitSilent port h) ∧
        h.yaml .volume = .conf b users ∧ h.container = none) ∧ Retired h)
          (fun htaken => absurd (hfree.symm.trans htaken) Bool.false_ne_true)
            fun _ _ hh => hh.1).bind fun _ => ?_
      refine Prog.ends_tearable_done rfl fun h hh => ⟨?_, hh.1.2.1, _, rfl, rfl⟩
      refine lone_of_silent ?_ hh.2 fun i hi => ?_
      · refine apart_silent.containers hh.1.1 rfl rfl fun c hc => ?_
        rcases hc with hc | hc
        · obtain rfl := Option.some.inj hc
          exact .inl rfl
        · exact .inr (.inr hc)
      · obtain rfl := Option.some.inj hi
        exact runArgs_published ht true
    · refine (waitWebAny_sole hbox).weaken (fun _ hh => hh) (fun _ _ hh => hh.1)
        fun _ hnone _ hat => ?_
      exact hnone ⟨t.webPort, List.mem_cons_self, hat⟩
  cases result with
  | error e => exact rollback_fails.weaken (fun _ hh => hh) (fun _ _ hh => hh.elim) fun _ hp => hp
  | ok _ =>
      refine Prog.ends_attempt (fun _ h hh => ⟨?_, hh.file, hh.kept⟩) fun hskip => absurd rfl hskip
      exact lone_of_silent (apart_silent.removePrevious hh.lone.unitSilent)
        (fun _ hi => nomatch hi) hh.lone.published

/-- A container that is brought up serves the file that was there, on its port. -/
theorem bringContainerUp_sole (ht : OnHostNetwork t) (hbox : Prompt box) (c : Option Container) :
    Prog.Ends allDone (fun h => Sole b users h ∧ h.container = c) (bringContainerUp t hash box c)
      (fun _ => Sole b users) fun _ => ¬ loopbackPort b.httpAddress = some t.webPort := by
  cases c with
  | none =>
      refine Prog.Ends.given (p := False) (fun h hh => ?_) False.elim
      obtain ⟨i, hi, -⟩ := hh.1.kept
      obtain ⟨c, hc, -⟩ := Option.mem_map.mp hi
      exact nomatch hc.symm.trans hh.2
  | some c =>
      refine Prog.Ends.ite (fun _ => ?_) fun _ => ?_
      · exact (recreate_sole ht hbox).strengthen fun _ hh => hh.1
      · refine Prog.Ends.given (p := c.kept = true) (fun h hh => ?_) fun hkept => ?_
        · obtain ⟨i, hi, hkept⟩ := hh.1.kept
          obtain ⟨c', hc', rfl⟩ := Option.mem_map.mp hi
          obtain rfl := Option.some.inj (hh.2.symm.trans hc')
          exact hkept
        · refine Prog.ends_onlyIf (fun hdown => ?_) fun _ _ hh => hh.1
          exact absurd (hkept.symm.trans hdown) (by decide)

/-- The next converge ends well exactly if AdGuard already listens at the web port it wants. -/
theorem converge_sole (ht : OnHostNetwork t) (hbox : Prompt box) (hlocal : Local t)
    (haccepts : accepts users t.adminUsername t.adminPassword = true) :
    Prog.Ends allDone (Sole b users) (converge t hash box)
      (fun _ _ => loopbackPort b.httpAddress = some t.webPort)
      fun _ => ¬ loopbackPort b.httpAddress = some t.webPort := by
  refine Prog.Ends.ite (fun _ => ?_) fun hmethod => absurd ht.method hmethod
  refine (Prog.ends_command_done (Q := fun _ => Sole b users) rfl fun _ hh => hh).bind
    fun _ => ?_
  refine Prog.Ends.bind (R := fun c h => Sole b users h ∧ h.container = c) ?_ fun c => ?_
  · refine (Prog.ends_ask (Q := fun answer h => Sole b users h ∧ answer = .done)
      fun _ hh => ⟨hh, rfl⟩).bind fun answer => ?_
    refine Prog.Ends.given (p := answer = .done) (fun _ hh => hh.2) fun hdone => ?_
    subst hdone
    refine (Prog.ends_refuseIf (Q := fun _ => Sole b users) (fun htorn => nomatch htorn)
      fun _ _ hh => hh.1).bind fun _ => ?_
    exact (Prog.ends_read (Q := fun c h => Sole b users h ∧ h.container = c)
      fun _ hh => ⟨hh, rfl⟩).bind fun c => Prog.ends_pure fun _ hh => hh
  refine Prog.Ends.ite (fun _ => ?_) fun hdisabled => absurd ht.enabled hdisabled
  refine (bringContainerUp_sole ht hbox c).bind fun _ => ?_
  exact Prog.Ends.ite (fun hbridge => absurd hbridge ht.not_bridge) fun _ =>
    convergeHostNetwork_sole hbox hlocal haccepts

end Sole

/-! ## Two specs -/

section Specs

variable {raw raw' : Json Int} {s t : Spec} {hash hash' : String} {box box' : Box}
  {f : Script Point} {start h : Host}

/-- The web port of an accepted spec is a port. -/
theorem decode_webPort (hs : decode raw = .ok s) : 1 ≤ s.webPort ∧ s.webPort ≤ 65535 := by
  obtain ⟨i, -, h⟩ := bind_ok.mp hs
  obtain ⟨_, -, h⟩ := bind_ok.mp h
  obtain ⟨_, -, h⟩ := bind_ok.mp h
  obtain ⟨_, -, h⟩ := bind_ok.mp h
  obtain ⟨_, -, h⟩ := bind_ok.mp h
  obtain ⟨_, hport, h⟩ := bind_ok.mp h
  obtain ⟨_, -, h⟩ := bind_ok.mp h
  obtain ⟨_, -, h⟩ := bind_ok.mp h
  obtain ⟨_, -, h⟩ := bind_ok.mp h
  obtain rfl := pure_ok.mp h
  have hrange := failIf_ok.mp hport
  dsimp only
  omega

/-- AdGuard bound to every address or to 127.0.0.1 answers there. -/
theorem local_of_bind (hs : decode raw = .ok s)
    (hbind : s.webBind = "0.0.0.0" ∨ s.webBind = "127.0.0.1") : Local s := by
  obtain ⟨hlow, hhigh⟩ := decode_webPort hs
  have hint : IsInt64 s.webPort := by
    unfold IsInt64
    omega
  have hport : ':' ∉ (toString s.webPort).toList ∧ NoBrackets (toString s.webPort).toList := by
    obtain ⟨n, hn⟩ := Int.eq_ofNat_of_zero_le (by omega : 0 ≤ s.webPort)
    rw [hn]
    exact noBrackets_repr n
  rcases hbind with hbind | hbind
  · have hhost : NoBrackets "0.0.0.0".toList := ⟨by decide, by decide⟩
    rw [Local, loopbackPort, Spec.binds, hbind, splitHostPort_joinHostPort hhost hport]
    exact atoi_toString hint
  · have hhost : NoBrackets "127.0.0.1".toList := ⟨by decide, by decide⟩
    rw [Local, loopbackPort, Spec.binds, hbind, splitHostPort_joinHostPort hhost hport]
    exact atoi_toString hint

/-- What the first spec has left the next one finds. -/
theorem sole_of_converged (hs : OnHostNetwork s) (hstart : Undisturbed s hash start)
    (hdone : f .stopPrevious = .done ∨ f .removePrevious = .done)
    (hfirst : (converge s hash box).run f start = (.ok (), h)) :
    ∃ b users, Sole b users h ∧ b.httpAddress = s.binds.httpAddress ∧
      accepts users s.adminUsername s.adminPassword = true := by
  obtain ⟨hlone, b, users, hfile⟩ := (converge_leaves hs hdone).of_ok hstart hfirst
  have hbefore : Before s hash f start := by
    refine ⟨(hstart.silent 0).1, fun _ => ?_⟩
    unfold Guarded
    split_ifs with hrecreates
    · exact ⟨(hstart.silent s.webPort).2, hdone⟩
    · obtain ⟨y, hsteady⟩ := (hstart.silent s.webPort).someFile hstart.retired
      rw [Spec.slot, if_pos hs.method]
      exact hsteady.alone
  have hserves := (converge_ends.of_ok hbefore hfirst).2 hs.enabled fun _ => hs.network
  unfold Serves at hserves
  rw [Spec.slot, if_pos hs.method] at hserves
  split at hserves
  · next loaded known hprocess =>
      obtain ⟨i, hi, hconfigured⟩ := mem_of_process (by simp) hprocess
      have hhonest := hlone.honest .container i hi
      have hsame := hhonest.file_eq hconfigured (by
        have hthere : h.yaml Slot.container.home = _ := hfile
        simp [hthere])
      obtain ⟨rfl, rfl⟩ := Yaml.conf.inj (hfile.symm.trans hsame)
      simp only [Instance.Honest, hconfigured] at hhonest
      exact ⟨_, _, ⟨hlone, hfile, i, hi, hhonest.1⟩, hserves.1.2.2, hserves.2⟩
  · exact hserves.elim

/-- **The next spec converges exactly if it keeps the web port.** -/
theorem change_converges_iff (hs : decode raw = .ok s) (ht : decode raw' = .ok t)
    (hsHost : OnHostNetwork s) (htHost : OnHostNetwork t)
    (hsBind : s.webBind = "0.0.0.0" ∨ s.webBind = "127.0.0.1")
    (htBind : t.webBind = "0.0.0.0" ∨ t.webBind = "127.0.0.1")
    (hcredentials : t.adminUsername = s.adminUsername ∧ t.adminPassword = s.adminPassword)
    (hstart : Undisturbed s hash start)
    (hdone : f .stopPrevious = .done ∨ f .removePrevious = .done)
    (hfirst : (converge s hash box).run f start = (.ok (), h)) (hbox : Prompt box') :
    (converge t hash' box').succeeds allDone h = true ↔ t.webPort = s.webPort := by
  obtain ⟨b, users, hsole, haddress, haccepts⟩ := sole_of_converged hsHost hstart hdone hfirst
  have hold : loopbackPort b.httpAddress = some s.webPort := by
    rw [haddress]
    exact local_of_bind hs hsBind
  have haccepts' : accepts users t.adminUsername t.adminPassword = true := by
    rw [hcredentials.1, hcredentials.2]
    exact haccepts
  rw [(converge_sole htHost hbox (local_of_bind ht htBind) haccepts').succeeds_iff hsole, hold,
    Option.some.injEq, eq_comm]

end Specs

/-! ### Two changes -/

/-- A container on the host's network at the given web port, with one DNS address. -/
def portSpec (webPort : Int) (dnsBind : String) : Json Int :=
  .obj [("web_port", .num webPort), ("dns_bind", .strs [dnsBind]), ("admin_username", .str "admin"),
    ("admin_password", .str "secret")]

def decodedSpec (webPort : Int) (dnsBind : String) : Spec where
  enabled := true
  installMethod := "docker"
  image := defaultImage
  webBind := "127.0.0.1"
  webPort := webPort
  dnsBind := [dnsBind]
  dnsPort := 53
  adminUsername := "admin"
  adminPassword := "secret"
  network := "host"
  dnsBind_ne := List.cons_ne_nil _ _

theorem prompt_steadyBox : Prompt steadyBox :=
  ⟨fun _ => List.mem_singleton.mpr rfl, fun _ _ hexits => nomatch List.mem_singleton.mp hexits⟩

/-- A fresh host is undisturbed. -/
theorem undisturbed_freshHost (s : Spec) (hash : String) : Undisturbed s hash freshHost where
  silent _ := ⟨fun slot _ hi => (by cases slot <;> cases hi), nofun⟩
  retired := nofun
  published := nofun

/-- The host after the spec at 8080. -/
def settledHost : Host :=
  (converge (decodedSpec 8080 "0.0.0.0") "first" steadyBox).final allDone freshHost

/-- Another DNS address at the same web port. -/
theorem dns_change_converges :
    (converge (decodedSpec 8080 "10.0.0.5") "second" steadyBox).succeeds allDone settledHost =
      true := by
  have hfirst : (converge (decodedSpec 8080 "0.0.0.0") "first" steadyBox).run allDone freshHost =
      (.ok (), settledHost) := Prog.succeeds_iff.mp (by decide +kernel)
  have hs : decode (portSpec 8080 "0.0.0.0") = .ok (decodedSpec 8080 "0.0.0.0") := by decide +kernel
  have ht : decode (portSpec 8080 "10.0.0.5") = .ok (decodedSpec 8080 "10.0.0.5") := by
    decide +kernel
  exact (change_converges_iff hs ht ⟨rfl, rfl, rfl⟩ ⟨rfl, rfl, rfl⟩ (.inr rfl) (.inr rfl)
    ⟨rfl, rfl⟩ (undisturbed_freshHost _ "first") (.inl rfl) hfirst prompt_steadyBox).mpr rfl

/-- Another web port: the container is swapped for one that still listens at the old port, is
not found at the new one, and is rolled back. -/
theorem port_change_fails :
    Prompt steadyBox ∧ decode (portSpec 8080 "0.0.0.0") = .ok (decodedSpec 8080 "0.0.0.0") ∧
      decode (portSpec 9090 "0.0.0.0") = .ok (decodedSpec 9090 "0.0.0.0") ∧
      (converge (decodedSpec 8080 "0.0.0.0") "first" steadyBox).succeeds allDone freshHost = true ∧
      (converge (decodedSpec 9090 "0.0.0.0") "second" steadyBox).succeeds allDone settledHost =
        false := by
  refine ⟨prompt_steadyBox, ?_⟩
  decide +kernel

end AdguardAdmin.Adguard
