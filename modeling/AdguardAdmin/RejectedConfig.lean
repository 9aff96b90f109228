import AdguardAdmin.DnsdistRole
/-!
# A configuration that is rejected

A converge has dnsdist check the text it rendered, and restarts nothing when the check
fails.  What is checked is the file itself: the one that the container, or the service of
the package, loads when it starts next.  By then the text is in it, and a failing check
takes nothing back.

* `converge_check_iff` — when a converge ends at the check, and what it leaves then;
* `kept_iff` — when that is what the instances of the host loaded before.
-/

namespace AdguardAdmin.Dnsdist

open Faulty

variable {keys : Keys} {s : Spec} {hash lua : String} {box : Box} {f : Script Point} {h : Host}

/-- A converge gets as far as the check: nothing fails before it, and in docker mode the
hash has changed or no container is found. -/
def Checks (s : Spec) (hash : String) (box : Box) (f : Script Point) (h : Host) : Prop :=
  f .writeConf = .done ∧
    if s.installMethod = "docker" then
      box.docker = true ∧ f .inspect ≠ .torn ∧
        (h.appliedHash ≠ hash ∨ f .inspect ≠ .done ∨ h.container = none)
    else
      box.systemd = true ∧ (box.program = true ∨ f .installPackage = .done) ∧
        f .writeBareConf = .done

/-- The text rendered of an enabled spec is checked and rejected. -/
def Rejected (keys : Keys) (s : Spec) (hash : String) (box : Box) (f : Script Point) (h : Host) :
    Prop :=
  (render keys box.resolve s hash).isSome = true ∧ Checks s hash box f h ∧
    f .checkConfig ≠ .done

/-- The host with a text in the files that a converge writes. -/
def Host.written (s : Spec) (lua : String) (h : Host) : Host :=
  if s.installMethod = "docker" then { h with confFile := some lua }
  else { h with confFile := some lua, bareConf := some lua }

/-- What an existing container, and an installed service, would load at their next start is
what it was. -/
def KeepsOld (box : Box) (h t : Host) : Prop :=
  (h.container.isSome = true → t.confFile = h.confFile) ∧
    (box.program = true → t.bareConf = h.bareConf)

/-- The files that an existing instance loads and the converge writes hold the rendered
text already. -/
def HeldBefore (keys : Keys) (s : Spec) (hash : String) (box : Box) (h : Host) : Prop :=
  (h.container.isSome = true → h.confFile = render keys box.resolve s hash) ∧
    (s.installMethod ≠ "docker" → box.program = true →
      h.bareConf = render keys box.resolve s hash)

/-! ## Executions that end at the check -/

section AtTheCheck

variable {t : Host}

/-- Waiting does not fail at the check. -/
theorem waitApi_not_check : ¬ waitApi.run f h = (.error (.command .checkConfig), t) := by
  intro hrun
  simp only [waitApi, Prog.bind_error, Prog.command_error, Prog.read_error,
    Prog.refuseIf_error] at hrun
  simp at hrun

/-- Running the container does not fail with the error of the check. -/
theorem dockerRun_not_check {image : String} {up : Bool} :
    ¬ (dockerRun image up).run f h = (.error (.command .checkConfig), t) := by
  intro hrun
  simp only [dockerRun, Prog.bind_error, Prog.tearable_error, Prog.read_error,
    Prog.refuseIf_error] at hrun
  simp at hrun

/-- Bringing the container up does not fail with the error of the check. -/
theorem bringContainerUp_not_check {up changed : Bool} {c : Option Container} :
    ¬ (bringContainerUp s up changed c).run f h = (.error (.command .checkConfig), t) := by
  cases c with
  | none => exact dockerRun_not_check
  | some c =>
      intro hrun
      by_cases himage : c.image = s.image
      · simp only [bringContainerUp, ne_eq, himage, not_true_eq_false, if_false] at hrun
        cases changed with
        | true => simp [Prog.tearable_error] at hrun
        | false => simp [Prog.onlyIf_error, Prog.command_error] at hrun
      · simp only [bringContainerUp, ne_eq, himage, not_false_eq_true, if_true] at hrun
        rcases Prog.bind_error.mp hrun with hremove | ⟨_, u, -, hstart⟩
        · simp [Prog.tearable_error] at hremove
        · exact dockerRun_not_check hstart

/-- Reading the container's state does not fail with the error of the check. -/
theorem containerState_not_check :
    ¬ containerState.run f h = (.error (.command .checkConfig), t) := by
  intro hrun
  simp only [containerState, Prog.bind_error, Prog.ask_error, Prog.refuseIf_error,
    Prog.read_error, Prog.pure_error] at hrun
  simp at hrun

/-- The docker path ends at the check. -/
theorem convergeDocker_check_iff (hmethod : s.installMethod = "docker") :
    (convergeDocker s hash lua box).run f h = (.error (.command .checkConfig), t) ↔
      Checks s hash box f h ∧ f .checkConfig ≠ .done ∧ t = h.written s lua := by
  have hneeded :
      (h.appliedHash ≠ hash ∨ (if f .inspect = .done then h.container else none) = none) ↔
        (h.appliedHash ≠ hash ∨ f .inspect ≠ .done ∨ h.container = none) := by
    by_cases hdone : f .inspect = .done <;> simp [hdone]
  unfold Checks Host.written
  rw [if_pos hmethod, if_pos hmethod]
  simp only [convergeDocker, Prog.bind_error, Prog.refuseIf_error, Prog.refuseIf_ok,
    Prog.read_error, Prog.read_ok, Prog.command_error, Prog.command_ok, Prog.onlyIf_error,
    containerState_not_check, containerState_ok, bringContainerUp_not_check, waitApi_not_check,
    exists_const, exists_and_left, exists_eq_left, and_assoc, reduceCtorEq, false_and, and_false,
    false_or, or_false, exists_false, Failure.command.injEq]
  rw [hneeded]
  constructor
  · rintro ⟨hdocker, hwrite, hinspect, hasked, -, hcheck, rfl⟩
    exact ⟨hwrite, by simpa using hdocker, hinspect, hasked, hcheck, rfl⟩
  · rintro ⟨hwrite, hdocker, hinspect, hasked, hcheck, rfl⟩
    exact ⟨by simp [hdocker], hwrite, hinspect, hasked, trivial, hcheck, rfl⟩

/-- A converge with the unit ends at the check exactly when it makes one that is not passed. -/
theorem convergeBare_check_iff (hmethod : s.installMethod ≠ "docker") :
    (convergeBare hash lua box).run f h = (.error (.command .checkConfig), t) ↔
      Checks s hash box f h ∧ f .checkConfig ≠ .done ∧ t = (h.found s box).written s lua := by
  unfold Checks Host.written Host.found Host.withPackage
  rw [if_neg hmethod, if_neg hmethod, if_neg hmethod]
  simp only [convergeBare, Prog.bind_error, Prog.refuseIf_error, Prog.refuseIf_ok,
    Prog.read_error, Prog.read_ok, Prog.command_error, Prog.command_ok, Prog.onlyIf_error,
    Prog.onlyIf_ok, Prog.tearable_error, Prog.tearable_ok, waitApi_not_check,
    exists_const, exists_and_left, exists_eq_left, and_assoc, reduceCtorEq, false_and, and_false,
    false_or, or_false, exists_false, Failure.command.injEq]
  constructor
  · rintro ⟨hsystemd, u, hinstall, hwrite, hwriteBare, -, hcheck, rfl⟩
    rcases hinstall with ⟨hmissing, hinstalled, rfl⟩ | ⟨hprogram, rfl⟩
    · rw [if_neg (by simp [hmissing])]
      exact ⟨hwrite, by simpa using hsystemd, .inr hinstalled, hwriteBare, hcheck, rfl⟩
    · rw [if_pos (by simpa using hprogram)]
      exact ⟨hwrite, by simpa using hsystemd, .inl (by simpa using hprogram), hwriteBare, hcheck,
        rfl⟩
  · rintro ⟨hwrite, hsystemd, hprogram, hwriteBare, hcheck, rfl⟩
    refine ⟨by simp [hsystemd], _, ?_, hwrite, hwriteBare, trivial, hcheck, rfl⟩
    cases hpath : box.program with
    | true => exact .inr ⟨by decide, rfl⟩
    | false => exact .inl ⟨rfl, by simpa [hpath] using hprogram, rfl⟩

/-- **What a rejection leaves.**  A converge of an enabled spec ends at the check exactly
when its rendered text is rejected, and then that text is in the files. -/
theorem converge_check_iff (henabled : s.enabled = true) :
    (converge keys s hash box).run f h = (.error (.command .checkConfig), t) ↔
      ∃ lua, render keys box.resolve s hash = some lua ∧ Checks s hash box f h ∧
        f .checkConfig ≠ .done ∧ t = (h.found s box).written s lua := by
  simp only [converge, henabled, if_true, bringUp]
  cases render keys box.resolve s hash with
  | none => simp [Prog.refuse_error]
  | some lua =>
      by_cases hmethod : s.installMethod = "docker"
      · simp [hmethod, Prog.bind_error, Prog.command_error, convergeDocker_check_iff hmethod,
          Host.found]
      · simp [hmethod, Prog.bind_error, Prog.command_error, convergeBare_check_iff hmethod]

end AtTheCheck

/-- The text is rejected exactly when the converge fails at the check. -/
theorem rejected_iff_fails (henabled : s.enabled = true) :
    Rejected keys s hash box f h ↔
      ((converge keys s hash box).run f h).1 = .error (.command .checkConfig) := by
  constructor
  · rintro ⟨hrenders, hchecks, hcheck⟩
    obtain ⟨lua, hlua⟩ := Option.isSome_iff_exists.mp hrenders
    rw [(converge_check_iff henabled).mpr ⟨lua, hlua, hchecks, hcheck, rfl⟩]
  · intro hfails
    obtain ⟨lua, hlua, hchecks, hcheck, -⟩ :=
      (converge_check_iff henabled).mp (Prod.ext hfails rfl)
    exact ⟨by simp [hlua], hchecks, hcheck⟩

/-- **A rejected text is harmless exactly when it was there before.**  A converge of an
enabled spec whose rendered text is rejected fails, and it leaves every existing instance
the file it would load next exactly if that file held the same text already. -/
theorem kept_iff (henabled : s.enabled = true) (hrejected : Rejected keys s hash box f h) :
    ((converge keys s hash box).run f h).1 = .error (.command .checkConfig) ∧
      (KeepsOld box h ((converge keys s hash box).final f h) ↔
        HeldBefore keys s hash box h) := by
  obtain ⟨hrenders, hchecks, hcheck⟩ := hrejected
  obtain ⟨lua, hlua⟩ := Option.isSome_iff_exists.mp hrenders
  have hrun := (converge_check_iff henabled).mpr ⟨lua, hlua, hchecks, hcheck, rfl⟩
  refine ⟨by rw [hrun], ?_⟩
  rw [Prog.final, hrun]
  unfold KeepsOld HeldBefore Host.written Host.found
  rw [hlua]
  by_cases hmethod : s.installMethod = "docker"
  · rw [if_pos hmethod, if_pos hmethod]
    constructor
    · rintro ⟨hcontainer, -⟩
      exact ⟨fun hex => (hcontainer hex).symm, fun hbare => absurd hmethod hbare⟩
    · rintro ⟨hcontainer, -⟩
      exact ⟨fun hex => (hcontainer hex).symm, fun _ => rfl⟩
  · rw [if_neg hmethod]
    constructor
    · rintro ⟨hcontainer, hunit⟩
      exact ⟨fun hex => (hcontainer hex).symm, fun _ hprogram => (hunit hprogram).symm⟩
    · rintro ⟨hcontainer, hunit⟩
      exact ⟨fun hex => (hcontainer hex).symm, fun hprogram => (hunit hmethod hprogram).symm⟩

/-- The balancer of `hostnameSpec`. -/
def hostnameBalancer : Spec where
  enabled := true
  installMethod := "bare_metal"
  image := defaultImage
  listen := ["0.0.0.0:53"]
  policy := "leastOutstanding"
  ecs := true
  cache := ⟨false, 100000⟩
  healthcheck := ⟨"a.root-servers.net.", 1, 3, 2, "auto"⟩
  acl := ["127.0.0.0/8", "10.0.0.0/8", "172.16.0.0/12", "192.168.0.0/16", "::1/128", "fc00::/7",
    "fe80::/10"]
  backends := [⟨"dns-a-1", "dns-a.lan", 53, 1, 1⟩]

/-- A host whose packaged service loaded a configuration of its own. -/
def servingHost : Host :=
  { freshHost with
    bareConf := some "setLocal(\"0.0.0.0:53\")", unit := some "setLocal(\"0.0.0.0:53\")" }

/-- A host whose packaged service has the text already that a converge renders. -/
def convergedHost : Host :=
  { freshHost with
    bareConf := render ⟨"key", "key"⟩ (boxResolving "10.0.0.11").resolve hostnameBalancer "hash" }

/-- A rejected text takes nothing away from a service that has held it before. -/
theorem kept_where_held :
    Rejected ⟨"key", "key"⟩ hostnameBalancer "hash" (boxResolving "10.0.0.11")
        (failingAt .checkConfig) convergedHost ∧
      KeepsOld (boxResolving "10.0.0.11") convergedHost
        ((converge ⟨"key", "key"⟩ hostnameBalancer "hash" (boxResolving "10.0.0.11")).final
          (failingAt .checkConfig) convergedHost) := by
  have hrejected : Rejected ⟨"key", "key"⟩ hostnameBalancer "hash" (boxResolving "10.0.0.11")
      (failingAt .checkConfig) convergedHost := by
    refine ⟨by decide +kernel, ⟨by decide, ?_⟩, by decide⟩
    rw [if_neg (by decide)]
    exact ⟨rfl, .inl rfl, rfl⟩
  have hheld : HeldBefore ⟨"key", "key"⟩ hostnameBalancer "hash" (boxResolving "10.0.0.11")
      convergedHost :=
    ⟨by simp [convergedHost, freshHost], fun _ _ => rfl⟩
  exact ⟨hrejected, ((kept_iff rfl hrejected).2).mpr hheld⟩

/-- The service of the package would load the rejected text when it starts next. -/
theorem rejected_text_replaces_old :
    ¬ ∀ (keys : Keys) (raw : Json Int) (s : Spec) (hash : String) (box : Box) (f : Script Point)
        (h : Host), decode raw = .ok s → s.enabled = true → Rejected keys s hash box f h →
      ((converge keys s hash box).run f h).1 = .error (.command .checkConfig) ∧
        KeepsOld box h ((converge keys s hash box).final f h) := by
  intro hkeeps
  have hkept := hkeeps ⟨"key", "key"⟩ hostnameSpec hostnameBalancer hostnameHash
    (boxResolving "10.0.0.11") (failingAt .checkConfig) servingHost (by decide +kernel) rfl
    ⟨by decide +kernel, ⟨by decide, by rw [if_neg (by decide)]; exact ⟨rfl, .inl rfl, rfl⟩⟩,
      by decide⟩
  have hsame := hkept.2.2 rfl
  revert hsame
  decide +kernel

end AdguardAdmin.Dnsdist
