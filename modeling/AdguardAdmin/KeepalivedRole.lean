import AdguardAdmin.RunLaws
import AdguardAdmin.FaultyPrograms
import AdguardAdmin.KeepalivedSpec
/-!
# Converging keepalived

Whether to restart keepalived is decided by comparing the file on disk with the
new rendering.  A pass that writes the file and then fails to restart leaves a
file that says one thing and a process that runs another; the next pass finds the
file unchanged and does not restart.

* `loaded_iff_notStale` — the exact condition under which a successful converge
  leaves the rendered configuration running;
* `stopped_iff` — the exact condition under which a disabled spec is stopped.
-/

namespace AdguardAdmin.Keepalived

open Faulty GoText

/-! ## The host -/

/-- What the role reads and changes.  `unit` is the configuration the running
process loaded when it was last started; `byRole` says, for the statements only,
that a converge of this role started it. -/
structure Host where
  confFile : Option String
  unit : Option String
  modulesLoad : Option String
  directorSysctl : Option String
  backupOnly : Option Bool
  byRole : Bool
  deriving DecidableEq, Repr

/-- What a converge finds on the box and does not change: systemd, the programs
on the path and the addresses of each interface (`none` where asking failed). -/
structure Box where
  systemd : Bool
  keepalived : Bool
  ipvsadm : Bool
  interfaces : Option (List (String × Option (List IpLiterals.Ip)))
  deriving DecidableEq, Repr

inductive Point where
  | stop
  | installKeepalived
  | installIpvsadm
  | writeModules
  | writeDirectorSysctl
  | sysctlOn
  | removeDirectorSysctl
  | sysctlOff
  | writeConf
  | enable
  | restart
  deriving DecidableEq, Repr

def Host.start (h : Host) : Host := { h with unit := h.confFile, byRole := true }

def Host.stop (h : Host) : Host := { h with unit := none, byRole := false }

/-- `systemctl enable --now` starts a unit that does not run. -/
def Host.enableNow (h : Host) : Host := if h.unit.isSome then h else h.start

/-! ## Converge -/

def directorSysctlText : String :=
  "# generated by adguard-admin-agent: IPVS director\n" ++
  "# A standby director must hand VIP packets to its own resolver instead\n" ++
  "# of re-scheduling the ones the VIP owner direct-routes to it.\n" ++
  "net.ipv4.vs.backup_only = 1\n"

/-- Set or clear `backup_only`; a failure is kept for the diagnostics only. -/
def applyDirectorSysctl (director : Bool) : Prog Point Host Unit :=
  if director then do
    let written ← Prog.ask .writeDirectorSysctl
    Prog.attempt .writeDirectorSysctl fun h => { h with directorSysctl := some directorSysctlText }
    Prog.onlyIf (written = .done)
      (Prog.attempt .sysctlOn fun h => { h with backupOnly := h.backupOnly.map fun _ => true })
  else do
    Prog.attempt .removeDirectorSysctl fun h => { h with directorSysctl := none }
    Prog.attempt .sysctlOff fun h => { h with backupOnly := h.backupOnly.map fun _ => false }

/-- The interface that carries an address. -/
def interfaceFor (box : Box) (ip : String) : Option String :=
  match box.interfaces, parseIP ip with
  | some interfaces, some want =>
      (interfaces.find? fun i => i.2.any fun addrs => want ∈ addrs).map (·.1)
  | _, _ => none

/-- The interface a converge renders into the configuration. -/
def interfaceUsed (s : Spec) (box : Box) : Option String :=
  if s.interface = "" then interfaceFor box s.srcIp else some s.interface

/-- Put the rendered file in place and have it run.  A restart that fails may
leave the unit stopped. -/
def applyConfig (rendered : String) : Prog Point Host Unit := do
  let current ← Prog.read fun h : Host => h.confFile.getD ""
  Prog.onlyIf (current ≠ rendered)
    (Prog.command .writeConf fun h => { h with confFile := some rendered })
  Prog.tearable .enable Host.enableNow Host.enableNow
  Prog.onlyIf (current ≠ rendered) (Prog.tearable .restart Host.start Host.stop)

/-- Install what the spec needs and prepare an IPVS director. -/
def prepare (s : Spec) (box : Box) : Prog Point Host Unit := do
  Prog.onlyIf (box.keepalived = false) (Prog.command .installKeepalived id)
  Prog.onlyIf (s.ipvsOn ∧ box.ipvsadm = false) (Prog.command .installIpvsadm id)
  Prog.onlyIf s.ipvsOn (Prog.command .writeModules fun h => { h with modulesLoad := some "ip_vs\n" })
  applyDirectorSysctl s.ipvsOn

def bringUp (s : Spec) (box : Box) : Prog Point Host Unit := do
  prepare s box
  match interfaceUsed s box with
  | none => Prog.refuse "no interface carries the address; set the interface explicitly"
  | some iface => applyConfig (render s iface)

/-- The error of `systemctl stop` is dropped. -/
def standDown : Prog Point Host Unit := do
  Prog.attempt .stop Host.stop
  applyDirectorSysctl false

def converge (s : Spec) (box : Box) : Prog Point Host Unit := do
  Prog.refuseIf (box.systemd = false) "keepalived needs systemd"
  if s.enabled then bringUp s box else standDown

/-! ## What a successful pass did -/

/-- The parts the restart decision rests on. -/
def Host.service (h : Host) : Option String × Option String × Bool := (h.confFile, h.unit, h.byRole)

/-- The kernel settings leave the service as it is. -/
theorem applyDirectorSysctl_service {director : Bool} {f : Script Point} {h t : Host}
    (hrun : (applyDirectorSysctl director).run f h = (.ok (), t)) : t.service = h.service := by
  unfold applyDirectorSysctl at hrun
  cases director with
  | true =>
      simp only [if_true, Prog.bind_ok, Prog.ask_ok, Prog.attempt_ok, Prog.onlyIf_ok, exists_const,
        exists_and_left, exists_eq_left, and_assoc] at hrun
      rcases hrun with ⟨hdone, rfl⟩ | ⟨hfailed, rfl⟩
      · simp only [hdone, if_true]
        split <;> rfl
      · rw [if_neg hfailed]
  | false =>
      simp only [Bool.false_eq_true, if_false, Prog.bind_ok, Prog.attempt_ok, exists_const,
        exists_eq_left] at hrun
      rw [hrun]
      split <;> split <;> rfl

/-- The preparation leaves the service as it was. -/
theorem prepare_service {s : Spec} {box : Box} {f : Script Point} {h t : Host}
    (hrun : (prepare s box).run f h = (.ok (), t)) : t.service = h.service := by
  simp only [prepare, Prog.bind_ok, Prog.onlyIf_ok, Prog.command_ok, exists_const, id_eq] at hrun
  obtain ⟨u, hkeepalived, v, hipvsadm, w, hmodules, hsysctl⟩ := hrun
  have hu : u = h := by rcases hkeepalived with ⟨-, -, rfl⟩ | ⟨-, rfl⟩ <;> rfl
  have hv : v = u := by rcases hipvsadm with ⟨-, -, rfl⟩ | ⟨-, rfl⟩ <;> rfl
  have hw : w.service = v.service := by rcases hmodules with ⟨-, -, rfl⟩ | ⟨-, rfl⟩ <;> rfl
  rw [applyDirectorSysctl_service hsysctl, hw, hv, hu]

/-- Applying a rendered text either restarts the unit on it, or finds the file
equal to it and leaves a running unit alone. -/
theorem applyConfig_ok {rendered : String} {f : Script Point} {h t : Host}
    (hrun : (applyConfig rendered).run f h = (.ok (), t)) :
    (h.confFile.getD "" ≠ rendered ∧ t.unit = some rendered ∧ t.confFile = some rendered) ∨
      (h.confFile.getD "" = rendered ∧ t = h.enableNow) := by
  simp only [applyConfig, Prog.bind_ok, Prog.read_ok, Prog.onlyIf_ok, Prog.command_ok,
    Prog.tearable_ok, exists_const, exists_and_left, exists_eq_left, and_assoc] at hrun
  obtain ⟨u, hwrite, -, hrestart⟩ := hrun
  rcases hwrite with ⟨hchanged, -, rfl⟩ | ⟨hsame, rfl⟩
  · rcases hrestart with ⟨-, -, rfl⟩ | ⟨hsame, -⟩
    · refine Or.inl ⟨hchanged, ?_, ?_⟩
      · unfold Host.enableNow
        split <;> rfl
      · unfold Host.enableNow
        split <;> rfl
    · exact absurd hchanged hsame
  · rcases hrestart with ⟨hchanged, -⟩ | ⟨-, rfl⟩
    · exact absurd hchanged hsame
    · exact Or.inr ⟨by simpa using hsame, rfl⟩

/-- A text with another behind it is not empty. -/
private theorem append_ne_empty {a : String} (ha : a ≠ "") (b : String) : a ++ b ≠ "" := by
  intro h
  have hlist : a.toList ++ b.toList = [] := by
    rw [← String.toList_append, h]
    rfl
  exact ha (String.toList_inj.mp (List.append_eq_nil_iff.mp hlist).1)

/-- A configuration is not empty. -/
theorem render_ne_empty (s : Spec) (iface : String) : render s iface ≠ "" := by
  have hglobals : renderGlobals s iface ≠ "" := by
    unfold renderGlobals
    exact append_ne_empty (append_ne_empty (append_ne_empty (by decide) _) _) _
  unfold render
  exact append_ne_empty (append_ne_empty (append_ne_empty hglobals _) _) _

/-! ## Runs -/

/-- One pass: a spec as it is sent, what the box offers, and which commands fail. -/
structure Pass where
  raw : Json Int
  box : Box
  script : Script Point

/-- An accepted spec is converged on; a rejected one changes nothing. -/
def step (h : Host) (a : Pass) : Host :=
  match decode a.raw with
  | .error _ => h
  | .ok s => (converge s a.box).final a.script h

/-- The running process loaded the configuration rendered for the interface in use. -/
def Loaded (s : Spec) (box : Box) (h : Host) : Prop :=
  ∃ iface ∈ interfaceUsed s box, h.unit = some (render s iface)

/-- The file already holds that configuration, but the running process loaded another. -/
def Stale (s : Spec) (box : Box) (h : Host) : Prop :=
  ∃ iface ∈ interfaceUsed s box, h.confFile = some (render s iface) ∧
    ∃ loaded ∈ h.unit, loaded ≠ render s iface

/-- A law about the passes that end well on a spec of one kind. -/
def OnSuccess (enabled : Bool) (law : Spec → Pass → Host → Prop) (h : Host) (a : Pass) : Prop :=
  match decode a.raw with
  | .error _ => True
  | .ok s => s.enabled = enabled → (converge s a.box).succeeds a.script h = true → law s a h

/-- Conditions on successful passes may be replaced by equivalent ones. -/
theorem onSuccess_congr {enabled : Bool} {law cond : Spec → Pass → Host → Prop}
    (hiff : ∀ s a h, s.enabled = enabled → (converge s a.box).succeeds a.script h = true →
      (law s a h ↔ cond s a h)) (h : Host) (a : Pass) :
    OnSuccess enabled law h a ↔ OnSuccess enabled cond h a := by
  unfold OnSuccess
  split
  · exact Iff.rfl
  · next s _ =>
      constructor
      · exact fun hlaw hkind hok => (hiff s a h hkind hok).mp (hlaw hkind hok)
      · exact fun hcond hkind hok => (hiff s a h hkind hok).mpr (hcond hkind hok)

/-- One successful pass leaves the rendered configuration running exactly when it
did not start from a stale process. -/
theorem loaded_iff_not_stale {s : Spec} {a : Pass} {h : Host} (henabled : s.enabled = true)
    (hok : (converge s a.box).succeeds a.script h = true) :
    Loaded s a.box ((converge s a.box).final a.script h) ↔ ¬ Stale s a.box h := by
  have hrun := Prog.succeeds_iff.mp hok
  generalize (converge s a.box).final a.script h = t at hrun
  simp only [converge, henabled, if_true, bringUp, Prog.bind_ok, Prog.refuseIf_ok, exists_const,
    exists_and_left, exists_eq_left, and_assoc] at hrun
  obtain ⟨-, _, u, hprepare, hrun⟩ := hrun
  obtain ⟨hconf, hunit, -⟩ : u.confFile = h.confFile ∧ u.unit = h.unit ∧ u.byRole = h.byRole := by
    simpa [Host.service] using prepare_service hprepare
  cases hiface : interfaceUsed s a.box with
  | none => simp [hiface, Prog.refuse_ok] at hrun
  | some iface =>
      rw [hiface] at hrun
      have hne := render_ne_empty s iface
      simp only [Loaded, Stale, hiface, Option.mem_def, Option.some.injEq, exists_eq_left']
      rcases applyConfig_ok hrun with ⟨hchanged, hloaded, -⟩ | ⟨hsame, rfl⟩
      · -- the file was rewritten and the unit restarted on it
        have hdiffers : h.confFile ≠ some (render s iface) := by
          intro heq
          simp [hconf, heq] at hchanged
        simp [hloaded, hdiffers]
      · have hfile : h.confFile = some (render s iface) := by
          rw [hconf] at hsame
          cases hc : h.confFile with
          | none => exact absurd (by simpa [hc] using hsame.symm) hne
          | some c => simpa [hc] using hsame
        cases hu : h.unit with
        | none => simp [Host.enableNow, Host.start, hunit, hu, hconf, hfile]
        | some loaded => simp [Host.enableNow, hunit, hu, hfile]

/-- **A converge is sound exactly when it does not meet a stale process.**  Along
every run, whatever fails, each successful pass on an enabled spec leaves the
configuration rendered for it running if and only if no such pass starts with the
file already rewritten and the process still on another configuration. -/
theorem loaded_iff_notStale (start : Host) (run : List Pass) :
    RunLaws.Along step (OnSuccess true fun s a h =>
        Loaded s a.box ((converge s a.box).final a.script h)) start run ↔
      RunLaws.Along step (OnSuccess true fun s a h => ¬ Stale s a.box h) start run :=
  RunLaws.along_congr step (onSuccess_congr fun _ _ _ => loaded_iff_not_stale) start run

instance (s : Spec) (box : Box) (h : Host) : Decidable (Loaded s box h) := by
  unfold Loaded
  infer_instance

instance (enabled : Bool) (law : Spec → Pass → Host → Prop) [∀ s a h, Decidable (law s a h)]
    (h : Host) (a : Pass) : Decidable (OnSuccess enabled law h a) := by
  unfold OnSuccess
  split <;> infer_instance

/-- A director's spec with a given VRRP priority. -/
def directorSpec (priority : Int) : Json Int :=
  .obj [("enabled", .bool true), ("vip", .str "10.0.0.53/24"), ("interface", .str "eth0"),
    ("router_id", .num 53), ("priority", .num priority), ("auth_pass", .str "secret"),
    ("peers", .strs ["10.0.0.12"]), ("src_ip", .str "10.0.0.11"),
    ("check_dns", .str "127.0.0.1:53")]

def freshHost : Host := ⟨none, none, none, none, none, false⟩

def plainBox : Box := ⟨true, true, false, none⟩

/-- A restart that failed once is never made up for. -/
theorem old_config_keeps_running :
    ¬ RunLaws.Along step (OnSuccess true fun s a h =>
        Loaded s a.box ((converge s a.box).final a.script h)) freshHost
      [⟨directorSpec 100, plainBox, allDone⟩, ⟨directorSpec 150, plainBox, failingAt .restart⟩,
        ⟨directorSpec 150, plainBox, allDone⟩] := by
  decide +kernel

/-! ## Standing down -/

/-- A process that this role started is running. -/
def RoleRuns (h : Host) : Prop := h.unit.isSome ∧ h.byRole

instance (h : Host) : Decidable (RoleRuns h) := inferInstanceAs (Decidable (_ ∧ _))

/-- A disabled spec leaves nothing of the role running exactly when the stop
command works or there is nothing to stop. -/
theorem stopped_iff {s : Spec} {a : Pass} {h : Host} (hdisabled : s.enabled = false)
    (hok : (converge s a.box).succeeds a.script h = true) :
    ¬ RoleRuns ((converge s a.box).final a.script h) ↔ a.script .stop = .done ∨ ¬ RoleRuns h := by
  have hrun := Prog.succeeds_iff.mp hok
  generalize (converge s a.box).final a.script h = t at hrun
  simp only [converge, hdisabled, Bool.false_eq_true, if_false, standDown, Prog.bind_ok,
    Prog.refuseIf_ok, Prog.attempt_ok, exists_const, exists_and_left, exists_eq_left,
    and_assoc] at hrun
  obtain ⟨-, hsysctl⟩ := hrun
  have hservice := applyDirectorSysctl_service hsysctl
  by_cases hstop : a.script .stop = .done
  · obtain ⟨-, hunit, -⟩ : t.confFile = h.confFile ∧ t.unit = none ∧ t.byRole = false := by
      simpa [Host.service, hstop, Host.stop] using hservice
    simp [hstop, RoleRuns, hunit]
  · obtain ⟨-, hunit, hby⟩ : t.confFile = h.confFile ∧ t.unit = h.unit ∧ t.byRole = h.byRole := by
      simpa [Host.service, hstop] using hservice
    simp [hstop, RoleRuns, hunit, hby]

end AdguardAdmin.Keepalived
