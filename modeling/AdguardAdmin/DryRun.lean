import AdguardAdmin.SyncPass
/-!
# Dry runs

A dry run shares the code of a pass; wherever that requests a change, a flag keeps the
request back.  What is reported is computed next to the requests and not from them.  So
every part of a pass is given a *due*: whether it finds something to change.  In both modes
a part reports its due, and in a real run it requests a change exactly when that is set.

* `foretold` — a dry run requests no change and reports what the real run does.
-/

namespace AdguardAdmin

/-- What a pass reports that it changed. -/
structure ChangeReport where
  added : List String
  deleted : List String
  upstreamsChanged : Bool
  filteringChanged : Bool
  deriving DecidableEq, Repr

def ServerSyncResult.changes (r : ServerSyncResult) : ChangeReport :=
  ⟨r.added, r.deleted, r.upstreamsChanged, r.filteringChanged⟩

def ChangeReport.any (r : ChangeReport) : Bool :=
  !r.added.isEmpty || !r.deleted.isEmpty || r.upstreamsChanged || r.filteringChanged

/-- Nothing has been reported yet. -/
def ChangeReport.nothing : ChangeReport := ⟨[], [], false, false⟩

namespace SyncEnvironment

open Faulty Prog Client

/-! ## What there is to change -/

/-- A desired list is not there, or is there with another name or flag. -/
def filterDue (current : List (String × ListEntry)) (f : FilterSpec) : Bool :=
  match current.reverse.lookup (PyText.strip f.url) with
  | none => true
  | some cur => cur.enabled ≠ f.enabled || cur.name ≠ f.name

def pruneDue (desiredUrls : List String) (urls : List String) : Bool :=
  urls.any fun url => url ≠ "" && url ∉ desiredUrls

def kindDue (plan : ServerPlan) (lists : UrlLists) (kind : FilterKind) : Bool :=
  (plan.filters kind).any (filterDue (currentLists lists)) ||
    (plan.prune &&
      pruneDue (desiredUrls (plan.filters kind)) ((currentLists lists).map (·.1)))

def engineDue (plan : ServerPlan) (enabled : Bool) : Bool :=
  (plan.filters .blocklist).countP (·.enabled) ≠ 0 && !enabled

/-- Services are not compared if they could not be read. -/
def servicesDue (f : Script Call) (plan : ServerPlan) (current : List String) : Bool :=
  plan.blockedServices ≠ [] && f .blockedServicesGet = .done &&
    (targetServices plan current).toFinset ≠ current.toFinset

def filteringDue (f : Script Call) (plan : ServerPlan) (s : AdGuard) : Bool :=
  plan.manageFiltering &&
    (kindDue plan (s.lists .blocklist) .blocklist ||
      (kindDue plan (s.lists .allowlist) .allowlist ||
        (engineDue plan s.filteringEnabled || servicesDue f plan s.blockedIds)))

def dnsDue (plan : ServerPlan) (s : AdGuard) : Bool :=
  plan.manageUpstreams && dnsPayload plan s.dns ≠ []

/-- The report of a pass that no failed request ends. -/
def planned (env : SyncEnvironment) (plan : ServerPlan) (s : AdGuard) : ChangeReport where
  added := (env.toAdd plan s.rewrites.dedup).map showRewrite
  deleted := (env.toDelete plan s.rewrites.dedup).map showRewrite
  upstreamsChanged := dnsDue plan s
  filteringChanged := filteringDue env.script plan s

/-! ## Parts of a pass -/

/-- The requests that read, and end a pass when they fail. -/
structure ReadsDone (f : Script Call) (plan : ServerPlan) : Prop where
  status : f .status = .done
  rewrites : f .listRewrites = .done
  dns : plan.manageUpstreams = true → f .dnsInfo = .done
  filtering : plan.manageFiltering = true → f .filteringStatus = .done

/-- A pass under way: a change has been requested exactly if this is no dry run and one was
due, `report` is what it has reported so far, and of the server `K` is known. -/
structure Standing (dryRun due : Bool) (report : ChangeReport) (K : AdGuard → Prop)
    (w : Exchange) : Prop where
  sent : w.mutations ≠ [] ↔ dryRun = false ∧ due = true
  changes : w.result.changes = report
  server : K w.server

/-- A pass that a failed request has ended. -/
structure Stopped (f : Script Call) (plan : ServerPlan) (dryRun : Bool) (w : Exchange) :
    Prop where
  dry : dryRun = true → w.mutations = [] ∧ ¬ ReadsDone f plan
  real : dryRun = false → w.result.changes.any = true → w.mutations ≠ []

/-- A part of a pass that finds `due` to change and returns a value in `V`. -/
def Part {α : Type} (f : Script Call) (plan : ServerPlan) (dryRun : Bool) (x : Client α)
    (V : α → Prop) (due : Bool) (K K' : AdGuard → Prop) : Prop :=
  ∀ before report, (report.any = true → before = true) →
    Ends f (Standing dryRun before report K) x
      (fun a w => V a ∧ Standing dryRun (before || due) report K' w) (Stopped f plan dryRun)

section Parts

variable {f : Script Call} {plan : ServerPlan} {dryRun due due' : Bool} {K K' K'' : AdGuard → Prop}
variable {α β : Type}

/-- A request has failed that is one for a change, or that the pass cannot do without. -/
theorem Standing.stopped {report : ChangeReport} {w : Exchange}
    (h : Standing dryRun due report K w) (hreport : report.any = true → due = true)
    (hfailed : dryRun = true → ¬ ReadsDone f plan) : Stopped f plan dryRun w where
  dry hdry := by
    refine ⟨?_, hfailed hdry⟩
    by_contra hsent
    rw [hdry] at h
    exact nomatch (h.sent.mp hsent).1
  real hreal hany := by
    rw [h.changes] at hany
    exact h.sent.mpr ⟨hreal, hreport hany⟩

/-- A value is a part of a pass that changes nothing. -/
theorem part_pure {V : α → Prop} {a : α} (h : V a) : Part f plan dryRun (pure a) V false K K := by
  intro before report _
  refine ends_pure fun w hw => ⟨h, ?_⟩
  rwa [Bool.or_false]

/-- Two parts in turn are due when one of them is. -/
theorem Part.bind {x : Client α} {k : α → Client β} {V : α → Prop} {V' : β → Prop}
    (hx : Part f plan dryRun x V due K K')
    (hk : ∀ a, V a → Part f plan dryRun (k a) V' due' K' K'') :
    Part f plan dryRun (x >>= k) V' (due || due') K K'' := by
  intro before report hreport
  refine (hx before report hreport).bind fun a => Ends.given (fun w hw => hw.1) fun ha => ?_
  have hlater := hk a ha (before || due) report fun hany => by simp [hreport hany]
  rw [Bool.or_assoc] at hlater
  exact hlater.strengthen fun w hw => hw.2

/-- What a part returns may be mapped. -/
theorem Part.map {x : Client α} {g : α → β} {V : α → Prop} {V' : β → Prop}
    (hx : Part f plan dryRun x V due K K') (hg : ∀ a, V a → V' (g a)) :
    Part f plan dryRun (do let a ← x; return g a) V' due K K' := by
  rw [← Bool.or_false due]
  exact hx.bind fun a ha => part_pure (hg a ha)

/-- A part, with less said of it. -/
theorem Part.entail {x : Client α} {V V' : α → Prop} (hx : Part f plan dryRun x V due K K')
    (hV : ∀ a, V a → V' a) (hK : ∀ s, K' s → K'' s) : Part f plan dryRun x V' due K K'' :=
  fun before report hreport => (hx before report hreport).entail fun a _ hw =>
    ⟨hV a hw.1, hw.2.sent, hw.2.changes, hK _ hw.2.server⟩

/-- A request that reads, and that the pass cannot do without. -/
theorem part_get {call : Call} {answer : AdGuard → α} {V : α → Prop}
    (hread : ReadsDone f plan → f call = .done) (hV : ∀ s, K s → V (answer s)) :
    Part f plan dryRun (get call answer) V false K K := by
  intro before report hreport w hw
  rcases hrun : (get call answer).run f w with ⟨e | a, t⟩
  · obtain ⟨hfailed, rfl⟩ := get_failed hrun
    exact hw.stopped hreport fun _ hreads => hfailed (hread hreads)
  · obtain ⟨-, rfl, rfl⟩ := get_ok.mp hrun
    rw [Bool.or_false]
    exact ⟨hV _ hw.server, hw⟩

/-- What a request whose failure is caught hands on. -/
def Answered (f : Script Call) (call : Call) (V : α → Prop) (r : Except (Failure Call) α) : Prop :=
  (f call = .done ∧ ∃ a, r = .ok a ∧ V a) ∨ (f call ≠ .done ∧ ∃ e, r = .error e)

/-- A request that reads, and whose failure is caught. -/
theorem part_tryGet {call : Call} {answer : AdGuard → α} {V : α → Prop}
    (hV : ∀ s, K s → V (answer s)) :
    Part f plan dryRun (caught (get call answer)) (Answered f call V) false K K := by
  intro before report hreport w hw
  unfold caught
  dsimp only
  rw [Bool.or_false]
  rcases hrun : (get call answer).run f w with ⟨e | b, t⟩
  · obtain ⟨hfailed, rfl⟩ := get_failed hrun
    exact ⟨.inr ⟨hfailed, e, rfl⟩, hw⟩
  · obtain ⟨hdone, rfl, rfl⟩ := get_ok.mp hrun
    exact ⟨.inl ⟨hdone, _, rfl, hV _ hw.server⟩, hw⟩

/-- What is only written into the report of the pass, apart from its changes. -/
theorem part_update {effect : Exchange → Exchange}
    (h : ∀ w, (effect w).server = w.server ∧ (effect w).mutations = w.mutations ∧
      (effect w).result.changes = w.result.changes) :
    Part f plan dryRun (update effect) (fun _ => True) false K K := by
  intro before report hreport
  refine ends_update fun w hw => ?_
  obtain ⟨hserver, hmutations, hchanges⟩ := h w
  rw [Bool.or_false]
  exact ⟨trivial, by rw [hmutations]; exact hw.sent, by rw [hchanges]; exact hw.changes,
    by rw [hserver]; exact hw.server⟩

/-- After a request for a change one has been requested. -/
theorem Standing.request {before : Bool} {report : ChangeReport} {w w' : Exchange}
    (h : Standing dryRun before report K w) (hreal : dryRun = false) {call : Call}
    (hmutations : w'.mutations = w.mutations ++ [call]) (hresult : w'.result = w.result)
    (hserver : K' w'.server) : Standing dryRun (before || true) report K' w' where
  sent := by simp [hmutations, hreal]
  changes := by rw [hresult]; exact h.changes
  server := hserver

/-- A change is due. -/
theorem part_change {call : Call} {effect : AdGuard → AdGuard} (hreal : dryRun = false)
    (hK : ∀ s, K s → K' (effect s)) :
    Part f plan dryRun (change call effect) (fun _ => True) true K K' := by
  intro before report hreport
  refine ends_change (fun w hw => ⟨trivial, ?_⟩) fun w hw => ?_
  · exact hw.request hreal rfl rfl (hK _ hw.server)
  · have hsent : Standing dryRun (before || true) report (fun _ => True)
        { w with mutations := w.mutations ++ [call] } := hw.request hreal rfl rfl trivial
    refine hsent.stopped (by simp) fun hdry => ?_
    rw [hreal] at hdry
    cases hdry

/-- A change of a list is due in every pass that is not a dry run. -/
theorem part_changeList {path : String} {call : Call} {kind : FilterKind}
    {edit : UrlLists → Option UrlLists} (hreal : dryRun = false)
    (hK : ∀ s l, K s → K { s with lists := Function.update s.lists kind l }) :
    Part f plan dryRun (changeList path call kind edit) (fun _ => True) true K K := by
  intro before report hreport
  refine ends_changeList (fun w l hw _ => ⟨trivial, ?_⟩) fun w hw => ?_
  · exact hw.request hreal rfl rfl (hK _ l hw.server)
  · have hsent : Standing dryRun (before || true) report (fun _ => True)
        { w with mutations := w.mutations ++ [call] } := hw.request hreal rfl rfl trivial
    refine hsent.stopped (by simp) fun hdry => ?_
    rw [hreal] at hdry
    cases hdry

/-- A change that only a real run requests. -/
theorem part_real {x : Client Unit}
    (hx : dryRun = false → Part f plan dryRun x (fun _ => True) due K K) :
    Part f plan dryRun (onlyIf (dryRun = false) x) (fun _ => True) due K K := by
  intro before report hreport
  refine Ends.ite (fun hreal => hx hreal before report hreport) fun hdry => ?_
  exact ends_pure fun w hw => ⟨trivial, ⟨by simp [hw.sent, hdry], hw.changes, hw.server⟩⟩

/-- A conditional change is due under its condition. -/
theorem part_onlyIf {p : Prop} [Decidable p] {x : Client Unit}
    (hx : p → Part f plan dryRun x (fun _ => True) true K K) :
    Part f plan dryRun (onlyIf p x) (fun _ => True) (decide p) K K := by
  by_cases hp : p
  · simp only [onlyIf, hp, if_true, decide_true]
    exact hx hp
  · simp only [onlyIf, hp, if_false, decide_false]
    exact part_pure trivial

/-- Noting a failure is no request. -/
theorem part_noteFailure : Part f plan dryRun noteFailure (fun _ => True) false K K :=
  part_update fun _ => ⟨rfl, rfl, rfl⟩

/-- A failure that is noted is no change. -/
theorem part_noteIf (p : Prop) [Decidable p] :
    Part f plan dryRun (onlyIf p noteFailure) (fun _ => True) false K K := by
  unfold onlyIf
  split
  · exact part_noteFailure
  · exact part_pure trivial

/-- A change whose failure is caught: it has been requested all the same. -/
theorem part_tryChange {call : Call} {effect : AdGuard → AdGuard} :
    Part f plan dryRun (caught (onlyIf (dryRun = false) (change call effect))) (fun _ => True) true
      K (fun _ => True) := by
  intro before report hreport
  refine ends_caught (Ends.ite (fun hreal => ?_) fun hdry => ?_)
  · exact ends_change (fun w hw => ⟨trivial, hw.request hreal rfl rfl trivial⟩)
      fun w hw e => ⟨trivial, hw.request hreal rfl rfl trivial⟩
  · exact ends_pure fun w hw => ⟨trivial, ⟨by simp [hw.sent, hdry], hw.changes, trivial⟩⟩

end Parts

/-! ## The parts -/

section Filtering

variable {f : Script Call} {plan : ServerPlan} {dryRun : Bool} {kind : FilterKind}
variable {K : AdGuard → Prop}

/-- What is known does not depend on the filter lists. -/
def IgnoresLists (K : AdGuard → Prop) : Prop :=
  ∀ s l kind, K s → K { s with lists := Function.update s.lists kind l }

/-- A list is due when it differs. -/
theorem pushFilter_part (hK : IgnoresLists K) (current : List (String × ListEntry))
    (spec : FilterSpec) :
    Part f plan dryRun (pushFilter dryRun kind current spec) (· = filterDue current spec)
      (filterDue current spec) K K := by
  unfold pushFilter filterDue
  dsimp only
  cases List.lookup (PyText.strip spec.url) current.reverse with
  | none =>
      dsimp only
      have hadd : dryRun = false → Part f plan dryRun
          (do
            filteringAddUrl spec.name (PyText.strip spec.url) kind
            onlyIf (spec.enabled = false)
              (filteringSetUrl (PyText.strip spec.url) spec.name false kind))
          (fun _ => True) (true || decide (spec.enabled = false)) K K := by
        intro hreal
        refine (part_changeList hreal fun s l => hK s l kind).bind fun _ _ => ?_
        exact part_onlyIf fun _ => part_changeList hreal fun s l => hK s l kind
      exact (part_real hadd).map fun _ _ => rfl
  | some cur =>
      dsimp only
      split
      · next hdiffers =>
          have hdue : (decide (cur.enabled ≠ spec.enabled) || decide (cur.name ≠ spec.name)) =
              true := by simpa only [Bool.or_eq_true, decide_eq_true_eq] using hdiffers
          rw [hdue]
          refine (part_real fun hreal => ?_).map fun _ _ => rfl
          exact part_changeList hreal fun s l => hK s l kind
      · next hsame =>
          have hdue : (decide (cur.enabled ≠ spec.enabled) || decide (cur.name ≠ spec.name)) =
              false := by
            rw [← Bool.not_eq_true]
            simpa only [Bool.or_eq_true, decide_eq_true_eq] using hsame
          rw [hdue]
          exact part_pure rfl

/-- Lists are due when one of them is. -/
theorem pushFilters_part (hK : IgnoresLists K) (current : List (String × ListEntry))
    (fs : List FilterSpec) :
    Part f plan dryRun (pushFilters dryRun kind current fs) (· = fs.any (filterDue current))
      (fs.any (filterDue current)) K K := by
  induction fs with
  | nil => exact part_pure rfl
  | cons spec rest ih =>
      rw [List.any_cons]
      refine (pushFilter_part hK current spec).bind fun _ hfirst => ?_
      refine ih.map fun _ hlater => ?_
      rw [hfirst, hlater]

/-- Pruning is due when a list is there that is not desired. -/
theorem pruneFilters_part (hK : IgnoresLists K) (desired urls : List String) :
    Part f plan dryRun (pruneFilters dryRun kind desired urls) (· = pruneDue desired urls)
      (pruneDue desired urls) K K := by
  unfold pruneDue
  induction urls with
  | nil => exact part_pure rfl
  | cons url rest ih =>
      rw [List.any_cons]
      unfold pruneFilters
      split
      · next hstray =>
          have hdue : (decide (url ≠ "") && decide (url ∉ desired)) = true := by simpa using hstray
          rw [hdue]
          refine (part_real fun hreal => ?_).bind fun _ _ => ih.map fun _ _ => rfl
          exact part_changeList hreal fun s l => hK s l kind
      · next hkept =>
          have hdue : (decide (url ≠ "") && decide (url ∉ desired)) = false := by
            simpa using hkept
          rw [hdue, Bool.false_or]
          exact ih

/-- A kind of lists is due by what the server has of it. -/
theorem reconcileKind_part (hK : IgnoresLists K) {status s : AdGuard}
    (hlists : status.lists = s.lists) :
    Part f plan dryRun (reconcileKind plan dryRun status kind) (· = kindDue plan (s.lists kind) kind)
      (kindDue plan (s.lists kind) kind) K K := by
  unfold reconcileKind kindDue
  rw [hlists]
  refine (pushFilters_part hK _ _).bind fun changed hchanged => ?_
  subst hchanged
  by_cases hprune : plan.prune = true
  · simp only [hprune, if_true, Bool.true_and]
    refine (pruneFilters_part hK _ _).map fun pruned hpruned => ?_
    rw [hpruned]
  · simp only [hprune, Bool.not_eq_true] at hprune ⊢
    exact part_pure (Bool.or_false _).symm

/-- The engine is due by what the server has of it. -/
theorem reconcileEngine_part {status s : AdGuard}
    (henabled : status.filteringEnabled = s.filteringEnabled)
    (hK : ∀ s enabled interval, K s →
      K { s with filteringEnabled := enabled, interval := interval }) :
    Part f plan dryRun (reconcileEngine plan dryRun status)
      (· = engineDue plan s.filteringEnabled) (engineDue plan s.filteringEnabled) K K := by
  unfold reconcileEngine engineDue
  rw [henabled]
  split
  · next hoff =>
      have hdue : (decide ((plan.filters .blocklist).countP (·.enabled) ≠ 0) &&
          !s.filteringEnabled) = true := by
        simpa only [Bool.and_eq_true, decide_eq_true_eq, Bool.not_eq_true'] using hoff
      rw [hdue]
      refine (part_real fun hreal => ?_).map fun _ _ => rfl
      exact part_change hreal fun s => hK s _ _
  · next hon =>
      have hdue : (decide ((plan.filters .blocklist).countP (·.enabled) ≠ 0) &&
          !s.filteringEnabled) = false := by
        rw [← Bool.not_eq_true]
        simpa only [Bool.and_eq_true, decide_eq_true_eq, Bool.not_eq_true'] using hon
      rw [hdue]
      exact part_pure rfl

/-- Services are due by those that are blocked. -/
theorem reconcileServices_part (ids : List String) :
    Part f plan dryRun (reconcileServices plan dryRun) (· = servicesDue f plan ids)
      (servicesDue f plan ids) (fun s => s.blockedIds = ids) (fun _ => True) := by
  have hpure : ∀ due, due = false → Part f plan dryRun (pure false) (· = due) due
      (fun s => s.blockedIds = ids) fun _ => True := by
    intro due hdue
    subst hdue
    exact (part_pure (V := (· = false)) rfl).entail (fun _ h => h) fun _ _ => trivial
  unfold reconcileServices
  split
  · next hempty => exact hpure _ (by simp [servicesDue, hempty])
  · next hsome =>
      rw [← Bool.false_or (servicesDue f plan ids)]
      have hread : Part f plan dryRun
          (caught (get .blockedServicesGet fun s => (s.blockedIds, s.schedule)))
          (Answered f .blockedServicesGet fun answer => answer.1 = ids) false
          (fun s => s.blockedIds = ids) fun s => s.blockedIds = ids :=
        part_tryGet fun s hs => hs
      refine hread.bind fun r hr => ?_
      rcases hr with ⟨hdone, ⟨current, schedule⟩, rfl, hcurrent⟩ | ⟨hfailed, e, rfl⟩
      · dsimp only at hcurrent ⊢
        subst hcurrent
        split
        · next hsame => exact hpure _ (by simp [servicesDue, hsame])
        · next hdiffers =>
            have hdue : servicesDue f plan current = true := by
              simp [servicesDue, hsome, hdone, hdiffers]
            rw [hdue]
            have hrest : ∀ sent : Except (Failure Call) Unit, Part f plan dryRun
                (do onlyIf (sent.isOk = false) noteFailure; return true) (· = true) false
                (fun _ => True) fun _ => True :=
              fun sent => (part_noteIf _).map fun _ _ => rfl
            exact part_tryChange.bind fun sent _ => hrest sent
      · have hdue : servicesDue f plan ids = false := by simp [servicesDue, hfailed]
        rw [hdue]
        dsimp only
        exact part_noteFailure.bind fun _ _ => hpure _ rfl

/-- What filtering goes by is still as it was in `s`. -/
structure FilteringAs (s now : AdGuard) : Prop where
  lists : now.lists = s.lists
  enabled : now.filteringEnabled = s.filteringEnabled
  services : now.blockedIds = s.blockedIds

/-- Filtering is due by what the server has. -/
theorem reconcileFiltering_part (s : AdGuard) :
    Part f plan dryRun (reconcileFiltering plan dryRun) (· = filteringDue f plan s)
      (filteringDue f plan s) (FilteringAs s) (fun _ => True) := by
  unfold reconcileFiltering filteringDue
  by_cases hmanaged : plan.manageFiltering = true
  · simp only [hmanaged, if_true, Bool.true_and]
    have hread : Part f plan dryRun (get .filteringStatus id) (FilteringAs s) false
        (FilteringAs s) (fun now => now.blockedIds = s.blockedIds) :=
      (part_get (fun hreads => hreads.filtering hmanaged) fun _ h => h).entail (fun _ h => h)
        fun _ h => h.services
    refine hread.bind fun status hstatus => ?_
    have hlists : IgnoresLists fun now => now.blockedIds = s.blockedIds := fun _ _ _ h => h
    refine (reconcileKind_part hlists hstatus.lists).bind fun blocks hblocks => ?_
    refine (reconcileKind_part hlists hstatus.lists).bind fun allows hallows => ?_
    refine (reconcileEngine_part hstatus.enabled fun _ _ _ h => h).bind fun engine hengine => ?_
    refine (reconcileServices_part s.blockedIds).map fun services hservices => ?_
    rw [hblocks, hallows, hengine, hservices]
    simp only [Bool.or_assoc]
  · simp only [hmanaged, Bool.false_eq_true, if_false, Bool.false_and]
    exact (part_pure (V := (· = false)) rfl).entail (fun _ h => h) fun _ _ => trivial

end Filtering

section Pass

variable {env : SyncEnvironment} {f : Script Call} {plan : ServerPlan} {dryRun : Bool}

/-- What the DNS lists and filtering go by is still as it was in `s`. -/
structure ConfigAs (s now : AdGuard) : Prop extends FilteringAs s now where
  dns : now.dns = s.dns

/-- DNS is due by what the server has. -/
theorem reconcileDns_part (s : AdGuard) :
    Part f plan dryRun (reconcileDns plan dryRun) (· = !dnsDue plan s) (dnsDue plan s)
      (ConfigAs s) (FilteringAs s) := by
  unfold reconcileDns
  split
  · next hmanaged =>
      have hread : Part f plan dryRun (get .dnsInfo (·.dns)) (· = s.dns) false
          (ConfigAs s) (FilteringAs s) :=
        (part_get (fun hreads => hreads.dns hmanaged) fun _ h => h.dns).entail (fun _ h => h)
          fun _ h => h.toFilteringAs
      rw [← Bool.false_or (dnsDue plan s)]
      refine hread.bind fun info hinfo => ?_
      subst hinfo
      dsimp only
      split
      · next hsame =>
          have hdue : dnsDue plan s = false := by simp [dnsDue, hsame]
          rw [hdue]
          exact part_pure rfl
      · next hdiffers =>
          have hdue : dnsDue plan s = true := by simp [dnsDue, hmanaged, hdiffers]
          rw [hdue]
          refine (part_real fun hreal => ?_).map fun _ _ => rfl
          exact part_change hreal fun _ h => ⟨h.lists, h.enabled, h.services⟩
  · next hmanaged =>
      have hdue : dnsDue plan s = false := by simp [dnsDue, hmanaged]
      rw [hdue]
      exact (part_pure (V := (· = true)) rfl).entail (fun _ h => h) fun _ h => h.toFilteringAs

/-- Added rewrites are due. -/
theorem addRewrites_part {K : AdGuard → Prop} (hreal : dryRun = false)
    (hK : ∀ s rs, K s → K { s with rewrites := rs }) (rs : List Rewrite) :
    Part f plan dryRun (addRewrites rs) (fun _ => True) (!rs.isEmpty) K K := by
  induction rs with
  | nil => exact part_pure trivial
  | cons r rest ih => exact (part_change hreal fun s => hK s _).bind fun _ _ => ih

/-- A deletion of rewrites is due in every pass that is not a dry run. -/
theorem deleteRewrites_part {K : AdGuard → Prop} (hreal : dryRun = false)
    (hK : ∀ s rs, K s → K { s with rewrites := rs }) (rs : List Rewrite) :
    Part f plan dryRun (deleteRewrites rs) (fun _ => True) (!rs.isEmpty) K K := by
  induction rs with
  | nil => exact part_pure trivial
  | cons r rest ih => exact (part_change hreal fun s => hK s _).bind fun _ _ => ih

/-- What is reported of the rewrites of a server. -/
def rewritesPlanned (env : SyncEnvironment) (plan : ServerPlan) (s : AdGuard) : ChangeReport :=
  { planned env plan s with upstreamsChanged := false, filteringChanged := false }

/-- What is reported of the rewrites and of the DNS lists. -/
def dnsPlanned (env : SyncEnvironment) (plan : ServerPlan) (s : AdGuard) : ChangeReport :=
  { planned env plan s with filteringChanged := false }

/-- Something is planned of the rewrites when some are to be added or deleted. -/
theorem any_rewritesPlanned (env : SyncEnvironment) (plan : ServerPlan) (s : AdGuard) :
    (rewritesPlanned env plan s).any = (!(env.toAdd plan s.rewrites.dedup).isEmpty ||
      !(env.toDelete plan s.rewrites.dedup).isEmpty) := by
  simp [ChangeReport.any, rewritesPlanned, planned]

/-- Something is planned so far when rewrites or DNS are due. -/
theorem any_dnsPlanned (env : SyncEnvironment) (plan : ServerPlan) (s : AdGuard) :
    (dnsPlanned env plan s).any = ((rewritesPlanned env plan s).any || dnsDue plan s) := by
  simp [ChangeReport.any, rewritesPlanned, dnsPlanned, planned]

/-- Something is planned when any of the three parts is due. -/
theorem any_planned (env : SyncEnvironment) (plan : ServerPlan) (s : AdGuard) :
    (planned env plan s).any = ((dnsPlanned env plan s).any || filteringDue env.script plan s) := by
  simp [ChangeReport.any, dnsPlanned, planned]

/-- The rewrites are reported as they are planned. -/
theorem reconcileRewrites_ends (s : AdGuard) :
    Ends f (Standing dryRun false ChangeReport.nothing (· = s)) (env.reconcileRewrites plan dryRun)
      (fun _ => Standing dryRun (rewritesPlanned env plan s).any (rewritesPlanned env plan s)
        (ConfigAs s)) (Stopped f plan dryRun) := by
  have hread : Part f plan dryRun (get .listRewrites fun s => s.rewrites.dedup)
      (· = s.rewrites.dedup) false (· = s) (ConfigAs s) :=
    (part_get (fun hreads => hreads.rewrites) fun now hnow => by rw [hnow]).entail
      (fun _ h => h) fun now hnow => by rw [hnow]; exact ⟨⟨rfl, rfl, rfl⟩, rfl⟩
  have hkeeps : ∀ now rs, ConfigAs s now → ConfigAs s { now with rewrites := rs } :=
    fun now rs h => ⟨⟨h.lists, h.enabled, h.services⟩, h.dns⟩
  unfold reconcileRewrites
  refine (hread false _ (by decide)).bind fun current => Ends.given (fun w hw => hw.1) fun hc => ?_
  subst hc
  dsimp only
  have hsend := @part_real f plan _ _ _ _ fun hreal : dryRun = false =>
    (addRewrites_part hreal hkeeps (env.toAdd plan s.rewrites.dedup)).bind fun _ _ =>
      deleteRewrites_part hreal hkeeps (env.toDelete plan s.rewrites.dedup)
  refine Ends.bind ((hsend false _ (by decide)).strengthen fun w hw => hw.2) fun _ => ?_
  refine Ends.bind (R := fun _ => Standing dryRun (rewritesPlanned env plan s).any
    (rewritesPlanned env plan s) (ConfigAs s)) ?_ fun _ => ends_pure fun w hw => hw
  refine ends_update fun w hw => ⟨?_, ?_, hw.2.server⟩
  · rw [any_rewritesPlanned]
    simpa using hw.2.sent
  · have hupstreams : w.result.upstreamsChanged = false :=
      congrArg ChangeReport.upstreamsChanged hw.2.changes
    have hfiltering : w.result.filteringChanged = false :=
      congrArg ChangeReport.filteringChanged hw.2.changes
    simp [ServerSyncResult.changes, rewritesPlanned, planned, hupstreams, hfiltering]

/-- The check of the version is no change. -/
theorem checkVersion_part {K : AdGuard → Prop} :
    Part f plan dryRun checkVersion (fun _ => True) false K K := by
  unfold checkVersion
  have hread : Part f plan dryRun (caught (get .versionCheck (·.versionInfo)))
      (Answered f .versionCheck fun _ => True) false K K := part_tryGet fun _ _ => trivial
  refine hread.bind fun r _ => ?_
  cases r with
  | error e => exact part_noteFailure
  | ok info => exact part_update fun _ => ⟨rfl, rfl, rfl⟩

/-- A part that finds nothing to change leaves a pass standing where it did. -/
theorem Part.quiet {α : Type} {x : Client α} {V : α → Prop} {K K' : AdGuard → Prop}
    (hx : Part f plan dryRun x V false K K') {before : Bool} {report : ChangeReport}
    (hreport : report.any = true → before = true) :
    Ends f (Standing dryRun before report K) x (fun _ => Standing dryRun before report K')
      (Stopped f plan dryRun) :=
  (hx before report hreport).entail fun _ w hw => by simpa using hw.2

/-- A pass that reaches its end reports what was planned, in both modes. -/
theorem pass_ends (env : SyncEnvironment) (s : AdGuard) :
    Ends env.script (· = start plan s) (env.pass plan dryRun)
      (fun _ => Standing dryRun (planned env plan s).any (planned env plan s) fun _ => True)
      (Stopped env.script plan dryRun) := by
  have hstart : ∀ w, w = start plan s → Standing dryRun false ChangeReport.nothing (· = s) w := by
    intro w hw
    subst hw
    exact ⟨by simp [start], rfl, rfl⟩
  refine Ends.strengthen ?_ hstart
  unfold pass
  have hstatus : Part env.script plan dryRun (get .status (·.version)) (fun _ => True) false
      (· = s) (· = s) := part_get (fun hreads => hreads.status) fun _ _ => trivial
  have hnothing : ChangeReport.nothing.any = true → false = true := by decide
  refine (hstatus.quiet hnothing).bind fun version => ?_
  refine Ends.bind (R := fun _ => Standing dryRun false ChangeReport.nothing (· = s))
    (ends_update fun w hw => ⟨hw.sent, hw.changes, hw.server⟩) fun _ => ?_
  refine (checkVersion_part.quiet hnothing).bind fun _ => ?_
  refine (reconcileRewrites_ends s).bind fun rewritesInSync => ?_
  refine (reconcileDns_part s _ _ fun h => h).bind fun upstreamsInSync =>
    Ends.given (fun w hw => hw.1) fun hdns => ?_
  subst hdns
  -- from here on the report has what was found of rewrites and of DNS
  refine Ends.bind (R := fun _ => Standing dryRun (dnsPlanned env plan s).any
    (dnsPlanned env plan s) (FilteringAs s)) (ends_update fun w hw => ?_) fun _ => ?_
  · obtain ⟨-, hw⟩ := hw
    refine ⟨by rw [any_dnsPlanned]; exact hw.sent, ?_, hw.server⟩
    have hfiltering : w.result.filteringChanged = false :=
      congrArg ChangeReport.filteringChanged hw.changes
    have hadded : w.result.added = _ := congrArg ChangeReport.added hw.changes
    have hdeleted : w.result.deleted = _ := congrArg ChangeReport.deleted hw.changes
    simp [ServerSyncResult.changes, dnsPlanned, rewritesPlanned, planned, hfiltering, hadded,
      hdeleted]
  refine Ends.bind (reconcileFiltering_part s _ _ fun h => h) fun filteringChanged =>
    Ends.given (fun w hw => hw.1) fun hfiltering => ?_
  subst hfiltering
  refine ends_update fun w hw => ?_
  obtain ⟨-, hw⟩ := hw
  refine ⟨by rw [any_planned]; exact hw.sent, ?_, trivial⟩
  have hupstreams : w.result.upstreamsChanged = _ :=
    congrArg ChangeReport.upstreamsChanged hw.changes
  have hadded : w.result.added = _ := congrArg ChangeReport.added hw.changes
  have hdeleted : w.result.deleted = _ := congrArg ChangeReport.deleted hw.changes
  simp [ServerSyncResult.changes, dnsPlanned, planned, hupstreams, hadded, hdeleted]

/-- A pass that reaches its end has been answered. -/
theorem readsDone_of_pass {u : Unit} {w t : Exchange}
    (h : (env.pass plan dryRun).run f w = (.ok u, t)) : ReadsDone f plan := by
  unfold pass at h
  simp only [bind_ok] at h
  obtain ⟨_, _, hstatus, _, _, -, _, _, -, _, _, hrewrites, _, _, hdns, _, _, -, _, _, hfiltering,
    -⟩ := h
  refine ⟨(get_ok.mp hstatus).1, ?_, fun hmanaged => ?_, fun hmanaged => ?_⟩
  · unfold reconcileRewrites at hrewrites
    obtain ⟨_, _, hread, -⟩ := bind_ok.mp hrewrites
    exact (get_ok.mp hread).1
  · unfold reconcileDns at hdns
    rw [if_pos hmanaged] at hdns
    obtain ⟨_, _, hread, -⟩ := bind_ok.mp hdns
    exact (get_ok.mp hread).1
  · unfold reconcileFiltering at hfiltering
    rw [if_pos hmanaged] at hfiltering
    obtain ⟨_, _, hread, -⟩ := bind_ok.mp hfiltering
    exact (get_ok.mp hread).1

end Pass

/-! ## The two runs -/

/-- How a dry run and a real run on the same state compare. -/
structure Foretold (env : SyncEnvironment) (plan : ServerPlan) (server : AdGuard) : Prop where
  quiet : (env.applyPlan plan true server).mutations = []
  same : (env.applyPlan plan false server).result.error = none ∨ env.clientError plan ≠ none →
    (env.applyPlan plan true server).result.changes =
      (env.applyPlan plan false server).result.changes
  requested : (env.applyPlan plan false server).result.changes.any = true →
    (env.applyPlan plan false server).mutations ≠ []
  told : (env.applyPlan plan false server).mutations ≠ [] →
    (env.applyPlan plan false server).result.changes.any = true ∨
      (env.applyPlan plan false server).result.error ≠ none

/-- How a run ends: at once, at its end, or with the request that failed. -/
theorem applyPlan_cases (env : SyncEnvironment) (plan : ServerPlan) (dryRun : Bool)
    (server : AdGuard) :
    (env.clientError plan ≠ none ∧ (env.applyPlan plan dryRun server).mutations = [] ∧
        (env.applyPlan plan dryRun server).result.changes = .nothing) ∨
      (env.clientError plan = none ∧ ReadsDone env.script plan ∧
        Standing dryRun (planned env plan server).any (planned env plan server) (fun _ => True)
          (env.applyPlan plan dryRun server)) ∨
      (env.clientError plan = none ∧ Stopped env.script plan dryRun (env.applyPlan plan dryRun server) ∧
        (env.applyPlan plan dryRun server).result.error ≠ none) := by
  unfold applyPlan
  cases hclient : env.clientError plan with
  | some message => exact .inl ⟨by simp, rfl, rfl⟩
  | none =>
      have hends := @pass_ends plan dryRun env server (start plan server) rfl
      dsimp only
      rcases hrun : (env.pass plan dryRun).run env.script (start plan server) with ⟨e | u, t⟩
      · rw [hrun] at hends
        exact .inr (.inr ⟨rfl, ⟨hends.dry, hends.real⟩, by simp [onError]⟩)
      · rw [hrun] at hends
        exact .inr (.inl ⟨rfl, readsDone_of_pass hrun, hends⟩)

/-- **A dry run foretells the real run.**  It requests no change.  Unless a failed request
ends the real run, both report the same.  A real run that reports a change has requested
one, and one that has requested a change reports it or the error that ended it. -/
theorem foretold (env : SyncEnvironment) (plan : ServerPlan) (server : AdGuard) :
    Foretold env plan server := by
  have hdry := applyPlan_cases env plan true server
  have hreal := applyPlan_cases env plan false server
  constructor
  case quiet =>
    rcases hdry with ⟨-, hnone, -⟩ | ⟨-, -, hstands⟩ | ⟨-, hstopped, -⟩
    · exact hnone
    · by_contra hsent
      exact nomatch (hstands.sent.mp hsent).1
    · exact (hstopped.dry rfl).1
  case same =>
    intro hend
    rcases hreal with ⟨hclient, -, hnothing⟩ | ⟨hclient, hreads, hstands⟩ | ⟨hclient, -, herror⟩
    · rcases hdry with ⟨-, -, hnothing'⟩ | ⟨hclient', -⟩ | ⟨hclient', -⟩
      · rw [hnothing, hnothing']
      · exact absurd hclient' hclient
      · exact absurd hclient' hclient
    · rcases hdry with ⟨hclient', -⟩ | ⟨-, -, hstands'⟩ | ⟨-, hstopped, -⟩
      · exact absurd hclient hclient'
      · rw [hstands.changes, hstands'.changes]
      · exact absurd hreads (hstopped.dry rfl).2
    · rcases hend with hnone | hclient'
      · exact absurd hnone herror
      · exact absurd hclient hclient'
  case requested =>
    intro hany
    rcases hreal with ⟨-, -, hnothing⟩ | ⟨-, -, hstands⟩ | ⟨-, hstopped, -⟩
    · rw [hnothing] at hany
      exact nomatch hany
    · rw [hstands.changes] at hany
      exact hstands.sent.mpr ⟨rfl, hany⟩
    · exact hstopped.real rfl hany
  case told =>
    intro hsent
    rcases hreal with ⟨-, hnone, -⟩ | ⟨-, -, hstands⟩ | ⟨-, -, herror⟩
    · exact absurd hnone hsent
    · left
      rw [hstands.changes]
      exact (hstands.sent.mp hsent).2
    · exact .inr herror

/-- Two rewrites are desired. -/
def twoRewrites : ServerPlan where
  serverId := 1
  name := "dns-a"
  url := "http://10.0.0.11:3000"
  username := none
  passwordEnc := none
  tlsCert := none
  prune := false
  manageUpstreams := false
  manageFiltering := false
  rewrites := [⟨"a.lan", "10.0.0.1"⟩, ⟨"b.lan", "10.0.0.2"⟩]
  upstreamLists := []
  filters := fun _ => []
  blockedServices := []

/-- The second rewrite cannot be added. -/
def secondFails : SyncEnvironment where
  lower := id
  network call :=
    if call = .addRewrite ⟨"b.lan", "10.0.0.2"⟩ then
      some ⟨"POST /control/rewrite/add -> HTTP 500", some 500, none⟩
    else none
  clientError _ := none
  now := 0

/-- The first rewrite has been added, and no change is reported. -/
theorem added_not_reported :
    ¬ ∀ (env : SyncEnvironment) (plan : ServerPlan) (server : AdGuard),
      (env.applyPlan plan false server).mutations ≠ [] ↔
        (env.applyPlan plan false server).result.changes.any = true := by
  intro h
  have hsent : (secondFails.applyPlan twoRewrites false .blank).mutations ≠ [] := by
    decide +kernel
  have hreported := (h secondFails twoRewrites .blank).mp hsent
  exact absurd hreported (by decide +kernel)

end SyncEnvironment

end AdguardAdmin
