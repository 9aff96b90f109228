import AdguardAdmin.RunLaws
import AdguardAdmin.SyncPass
/-!
# What a pass without pruning leaves in place

With pruning off a pass only adds.  Rewrites and filter lists are added one request at a
time; blocked services and DNS lists are sent whole, and what is sent contains what was
there, or is not empty.  A request that fails ends the pass, or is ignored, and the
server keeps what it had at that moment; so it does not matter which request fails, nor
whether the one before it was the last that took effect.
-/

namespace AdguardAdmin

open Faulty Faulty.Prog Client RunLaws

/-! ## Growth -/

/-- Nothing that `s` has is missing in `t`, and no DNS list was emptied. -/
structure AdGuard.Grows (s t : AdGuard) : Prop where
  rewrites : s.rewrites ⊆ t.rewrites
  urls : ∀ kind, (s.lists kind).entries.map (·.url) ⊆ (t.lists kind).entries.map (·.url)
  blockedIds : s.blockedIds ⊆ t.blockedIds
  dns : ∀ key, s.dns key ≠ [] → t.dns key ≠ []

/-- A server that stays as it is grows. -/
theorem AdGuard.Grows.refl (s : AdGuard) : s.Grows s where
  rewrites := List.Subset.refl _
  urls _ := List.Subset.refl _
  blockedIds := List.Subset.refl _
  dns _ h := h

/-- Growth is transitive. -/
theorem AdGuard.Grows.trans {s t u : AdGuard} (h : s.Grows t) (h' : t.Grows u) : s.Grows u where
  rewrites := List.Subset.trans h.rewrites h'.rewrites
  urls kind := List.Subset.trans (h.urls kind) (h'.urls kind)
  blockedIds := List.Subset.trans h.blockedIds h'.blockedIds
  dns key hne := h'.dns key (h.dns key hne)

/-- More lists of a kind let it grow. -/
theorem AdGuard.grows_lists {s : AdGuard} {kind : FilterKind} {l : UrlLists}
    (h : (s.lists kind).entries.map (·.url) ⊆ l.entries.map (·.url)) :
    s.Grows { s with lists := Function.update s.lists kind l } where
  rewrites := List.Subset.refl _
  urls k := by
    by_cases hk : k = kind
    · subst hk
      simpa using h
    · simp [Function.update_of_ne hk]
  blockedIds := List.Subset.refl _
  dns _ hne := hne

/-- A pass under way has taken nothing away. -/
def Grown (base : AdGuard) (w : Exchange) : Prop := base.Grows w.server

section Requests

variable {f : Script Call} {base : AdGuard}

theorem keeps_get {α : Type} (call : Call) (answer : AdGuard → α) :
    Keeps f (Grown base) (get call answer) :=
  Keeps.bind (ends_command (fun _ h => h) fun _ h => h) fun _ => ends_read fun _ h => h

/-- A change that lets the server grow takes nothing away. -/
theorem keeps_change {call : Call} {effect : AdGuard → AdGuard}
    (h : ∀ s, AdGuard.Grows s (effect s)) :
    Keeps f (Grown base) (change call effect) :=
  ends_change (fun _ hw => hw.trans (h _)) fun _ hw => hw

/-- A request that the server may refuse, and that only adds when it does not. -/
theorem keeps_changeList {path : String} {call : Call} {kind : FilterKind}
    {edit : UrlLists → Option UrlLists}
    (h : ∀ l l', edit l = some l' → l.entries.map (·.url) ⊆ l'.entries.map (·.url)) :
    Keeps f (Grown base) (changeList path call kind edit) :=
  ends_changeList (fun _ l hw hedit => hw.trans (AdGuard.grows_lists (h _ l hedit)))
    fun _ hw => hw

/-- Adding a rewrite takes nothing away. -/
theorem keeps_addRewrite (r : Rewrite) : Keeps f (Grown base) (addRewrite r) :=
  keeps_change fun _ =>
    ⟨List.subset_append_left _ _, fun _ => List.Subset.refl _, List.Subset.refl _, fun _ h => h⟩

/-- Adding a list takes nothing away. -/
theorem keeps_filteringAddUrl (name url : String) (kind : FilterKind) :
    Keeps f (Grown base) (filteringAddUrl name url kind) := by
  refine keeps_changeList fun l l' h => ?_
  unfold UrlLists.add? at h
  split at h
  · obtain rfl := Option.some.inj h
    simp
  · cases h

/-- Editing a list takes nothing away. -/
theorem keeps_filteringSetUrl (url name : String) (enabled : Bool) (kind : FilterKind) :
    Keeps f (Grown base) (filteringSetUrl url name enabled kind) := by
  refine keeps_changeList fun l l' h => ?_
  unfold UrlLists.set? at h
  split at h
  · obtain rfl := Option.some.inj h
    simp [Function.comp_def]
  · cases h

/-- The settings of the engine take nothing away. -/
theorem keeps_filteringConfig (enabled : Bool) (interval : Nat) :
    Keeps f (Grown base) (filteringConfig enabled interval) :=
  keeps_change fun _ =>
    ⟨List.Subset.refl _, fun _ => List.Subset.refl _, List.Subset.refl _, fun _ h => h⟩

/-- Lists that are sent are not empty. -/
theorem keeps_setDnsConfig {payload : List (DnsList × List String)} (private' : Bool)
    (h : ∀ p ∈ payload, p.2 ≠ []) : Keeps f (Grown base) (setDnsConfig payload private') := by
  refine keeps_change fun s =>
    ⟨List.Subset.refl _, fun _ => List.Subset.refl _, List.Subset.refl _, fun key hne => ?_⟩
  cases hlookup : payload.lookup key with
  | none => simpa [hlookup] using hne
  | some desired =>
      obtain ⟨before, after, rfl, -⟩ := List.lookup_eq_some_iff.mp hlookup
      simpa [hlookup] using h (key, desired) (by simp)

/-- A note of what was changed leaves the AdGuard as it was. -/
theorem keeps_update {effect : Exchange → Exchange} (h : ∀ w, (effect w).server = w.server) :
    Keeps f (Grown base) (Prog.update effect) := by
  refine ends_update fun w hw => ?_
  unfold Grown
  rw [h]
  exact hw

end Requests

/-! ## The parts of a pass -/

namespace SyncEnvironment

section Parts

variable {f : Script Call} {base : AdGuard} {env : SyncEnvironment} {plan : ServerPlan}

/-- Many rewrites may be added. -/
theorem keeps_addRewrites (rs : List Rewrite) : Keeps f (Grown base) (addRewrites rs) := by
  induction rs with
  | nil => exact keeps_pure ()
  | cons r rest ih => exact Keeps.bind (keeps_addRewrite r) fun _ => ih

/-- Without pruning nothing is deleted. -/
theorem keeps_reconcileRewrites (hprune : plan.prune = false) (dryRun : Bool) :
    Keeps f (Grown base) (env.reconcileRewrites plan dryRun) := by
  refine Keeps.bind (keeps_get _ _) fun current => ?_
  have hnone : env.toDelete plan current = [] := by simp [toDelete, hprune]
  refine Keeps.bind (Keeps.onlyIf fun _ => ?_) fun _ => ?_
  · rw [hnone]
    exact Keeps.bind (keeps_addRewrites _) fun _ => keeps_pure ()
  · exact Keeps.bind (keeps_update fun _ => rfl) fun _ => keeps_pure _

/-- Upstreams are only pushed where there are some. -/
theorem dnsPayload_ne_nil {info : DnsList → List String} :
    ∀ p ∈ dnsPayload plan info, p.2 ≠ [] := by
  intro p hp
  obtain ⟨-, hpush⟩ := List.mem_filter.mp hp
  simp only [Bool.and_eq_true, decide_eq_true_eq] at hpush
  exact hpush.1

/-- DNS settings take nothing away. -/
theorem keeps_reconcileDns (dryRun : Bool) : Keeps f (Grown base) (reconcileDns plan dryRun) := by
  unfold reconcileDns
  refine Ends.ite (fun _ => ?_) fun _ => keeps_pure true
  refine Keeps.bind (keeps_get _ _) fun info => ?_
  refine Ends.ite (fun _ => keeps_pure true) fun _ => ?_
  refine Keeps.bind (Keeps.onlyIf fun _ => ?_) fun _ => keeps_pure false
  exact keeps_setDnsConfig _ dnsPayload_ne_nil

/-- A list that is pushed takes nothing away. -/
theorem keeps_pushFilter (dryRun : Bool) (kind : FilterKind)
    (current : List (String × ListEntry)) (spec : FilterSpec) :
    Keeps f (Grown base) (pushFilter dryRun kind current spec) := by
  unfold pushFilter
  dsimp only
  split
  · refine Keeps.bind (Keeps.onlyIf fun _ => ?_) fun _ => keeps_pure true
    refine Keeps.bind (keeps_filteringAddUrl _ _ _) fun _ => ?_
    exact Keeps.onlyIf fun _ => keeps_filteringSetUrl _ _ _ _
  · refine Ends.ite (fun _ => ?_) fun _ => keeps_pure false
    refine Keeps.bind (Keeps.onlyIf fun _ => ?_) fun _ => keeps_pure true
    exact keeps_filteringSetUrl _ _ _ _

/-- Lists that are pushed take nothing away. -/
theorem keeps_pushFilters (dryRun : Bool) (kind : FilterKind)
    (current : List (String × ListEntry)) (specs : List FilterSpec) :
    Keeps f (Grown base) (pushFilters dryRun kind current specs) := by
  induction specs with
  | nil => exact keeps_pure false
  | cons spec rest ih =>
      refine Keeps.bind (keeps_pushFilter dryRun kind current spec) fun _ => ?_
      exact Keeps.bind ih fun _ => keeps_pure _

/-- Without pruning, lists that are reconciled take nothing away. -/
theorem keeps_reconcileKind (hprune : plan.prune = false) (dryRun : Bool) (status : AdGuard)
    (kind : FilterKind) : Keeps f (Grown base) (reconcileKind plan dryRun status kind) := by
  refine Keeps.bind (keeps_pushFilters dryRun kind _ _) fun changed => ?_
  simp only [hprune]
  exact keeps_pure changed

/-- A reconcile of the engine takes nothing away. -/
theorem keeps_reconcileEngine (dryRun : Bool) (status : AdGuard) :
    Keeps f (Grown base) (reconcileEngine plan dryRun status) := by
  refine Ends.ite (fun _ => ?_) fun _ => keeps_pure false
  refine Keeps.bind (Keeps.onlyIf fun _ => ?_) fun _ => keeps_pure true
  exact keeps_filteringConfig _ _

/-- What the server blocks is part of what is sent. -/
theorem subset_targetServices (hprune : plan.prune = false) (current : List String) :
    current ⊆ sortedSet (targetServices plan current) := by
  intro id hid
  simp [targetServices, hprune, hid]

/-- The services are read first, so what is sent has to be compared with the server as it
was then. -/
theorem keeps_reconcileServices (hprune : plan.prune = false) (dryRun : Bool) :
    Keeps f (Grown base) (reconcileServices plan dryRun) := by
  refine Ends.ite (fun _ => keeps_pure false) fun _ => ?_
  refine Ends.bind (R := fun answer w => Grown base w ∧
    ∀ ids schedule, answer = .ok (ids, schedule) → ids = w.server.blockedIds) ?_ ?_
  · refine ends_caught ?_
    refine Ends.bind (R := fun _ => Grown base)
      (ends_command (fun _ h => h) fun _ h e => ⟨h, fun _ _ hok => by cases hok⟩) fun _ => ?_
    refine ends_read fun w hw => ⟨hw, fun ids schedule hok => ?_⟩
    cases hok
    rfl
  · intro answer
    cases answer with
    | error e =>
        refine Ends.strengthen (P := Grown base) ?_ fun w hw => hw.1
        exact Keeps.bind (keeps_update fun _ => rfl) fun _ => keeps_pure false
    | ok current =>
        obtain ⟨ids, schedule⟩ := current
        refine Ends.ite (fun _ => ends_pure fun w hw => hw.1) fun _ => ?_
        refine Ends.bind (R := fun _ => Grown base) ?_ fun sent => ?_
        · refine ends_caught (ends_onlyIf (fun _ => ?_) fun _ w hw => hw.1)
          refine ends_change (fun w hw => hw.1.trans ?_) fun w hw _ => hw.1
          obtain rfl := hw.2 ids schedule rfl
          exact ⟨List.Subset.refl _, fun _ => List.Subset.refl _, subset_targetServices hprune _,
            fun _ hne => hne⟩
        · exact Keeps.bind (Keeps.onlyIf fun _ => keeps_update fun _ => rfl) fun _ => keeps_pure true

/-- A reconcile of filtering without pruning takes nothing away. -/
theorem keeps_reconcileFiltering (hprune : plan.prune = false) (dryRun : Bool) :
    Keeps f (Grown base) (reconcileFiltering plan dryRun) := by
  refine Ends.ite (fun _ => ?_) fun _ => keeps_pure false
  refine Keeps.bind (keeps_get _ _) fun status => ?_
  refine Keeps.bind (keeps_reconcileKind hprune dryRun status .blocklist) fun _ => ?_
  refine Keeps.bind (keeps_reconcileKind hprune dryRun status .allowlist) fun _ => ?_
  refine Keeps.bind (keeps_reconcileEngine dryRun status) fun _ => ?_
  exact Keeps.bind (keeps_reconcileServices hprune dryRun) fun _ => keeps_pure _

/-- The check of the version leaves the AdGuard as it was. -/
theorem keeps_checkVersion : Keeps f (Grown base) checkVersion := by
  refine Keeps.bind (Keeps.caught (keeps_get _ _)) fun answer => ?_
  cases answer with
  | error e => exact keeps_update fun _ => rfl
  | ok info => exact keeps_update fun _ => rfl

/-- A pass that does not prune takes nothing away. -/
theorem keeps_pass (hprune : plan.prune = false) (dryRun : Bool) :
    Keeps f (Grown base) (env.pass plan dryRun) := by
  refine Keeps.bind (keeps_get _ _) fun version => ?_
  refine Keeps.bind (keeps_update fun _ => rfl) fun _ => ?_
  refine Keeps.bind keeps_checkVersion fun _ => ?_
  refine Keeps.bind (keeps_reconcileRewrites hprune dryRun) fun _ => ?_
  refine Keeps.bind (keeps_reconcileDns dryRun) fun _ => ?_
  refine Keeps.bind (keeps_update fun _ => rfl) fun _ => ?_
  refine Keeps.bind (keeps_reconcileFiltering hprune dryRun) fun _ => ?_
  exact keeps_update fun _ => rfl

/-- One pass takes nothing away, wherever it ends. -/
theorem applyPlan_grows (hprune : plan.prune = false) (dryRun : Bool) (server : AdGuard) :
    server.Grows (env.applyPlan plan dryRun server).server := by
  unfold applyPlan
  split
  · exact AdGuard.Grows.refl server
  · have hkeeps : Keeps env.script (Grown server) (env.pass plan dryRun) :=
      keeps_pass hprune dryRun
    have hend := hkeeps (start plan server) (AdGuard.Grows.refl server)
    rcases hrun : (env.pass plan dryRun).run env.script (start plan server) with ⟨_ | _, w⟩
    · rw [hrun] at hend
      exact hend
    · rw [hrun] at hend
      exact hend

end Parts

/-! ## Sequences of passes -/

/-- A pass with its own circumstances. -/
structure Pass where
  env : SyncEnvironment
  plan : ServerPlan
  dryRun : Bool

def afterPass (server : AdGuard) (p : Pass) : AdGuard :=
  (p.env.applyPlan p.plan p.dryRun server).server

/-- **Without pruning nothing is taken away.**  Through any sequence of passes, whatever
fails in each of them, the server keeps every rewrite, every list and every blocked
service it has, and no DNS list of it is emptied. -/
theorem nothing_taken_away (passes : List Pass) (hprune : ∀ p ∈ passes, p.plan.prune = false)
    (server : AdGuard) :
    Along afterPass (fun s p => s.Grows (afterPass s p)) server passes ∧
      server.Grows (after afterPass server passes) := by
  induction passes generalizing server with
  | nil => exact ⟨trivial, AdGuard.Grows.refl server⟩
  | cons p rest ih =>
      rw [List.forall_mem_cons] at hprune
      have hpass : server.Grows (afterPass server p) := applyPlan_grows hprune.1 p.dryRun server
      obtain ⟨hsteps, hgrows⟩ := ih hprune.2 (afterPass server p)
      exact ⟨⟨hpass, hsteps⟩, hpass.trans hgrows⟩

/-- A server with a rewrite of its own. -/
def adopted : AdGuard where
  version := some "v0.107.61"
  versionInfo := ⟨none, false, false⟩
  rewrites := [⟨"printer.lan", "10.0.0.7"⟩]
  dns _ := ["9.9.9.9"]
  usePrivatePtrResolvers := false
  lists _ := .empty
  filteringEnabled := true
  interval := none
  blockedIds := []
  schedule := none

/-- Its first pass, which fails at the DNS lists. -/
def adoption : Pass where
  env := ⟨id, fun call => if call = .dnsInfo then some ⟨"timed out", none, none⟩ else none,
    fun _ => none, 0⟩
  plan :=
    { serverId := 1
      name := "edge"
      url := "http://10.0.0.2:3000"
      username := none
      passwordEnc := none
      tlsCert := none
      prune := false
      manageUpstreams := true
      manageFiltering := false
      rewrites := [⟨"nas.lan", "10.0.0.9"⟩]
      upstreamLists := [(.upstreamDns, ["1.1.1.1"])]
      filters := fun _ => []
      blockedServices := [] }
  dryRun := false

/-- The theorem applies to two passes over an adopted server. -/
theorem nothing_taken_away_adoption :
    adoption.plan.prune = false ∧
      Along afterPass (fun s p => s.Grows (afterPass s p)) adopted [adoption, adoption] ∧
        adopted.Grows (after afterPass adopted [adoption, adoption]) :=
  ⟨rfl, nothing_taken_away [adoption, adoption] (by simp [adoption]) adopted⟩

end SyncEnvironment

end AdguardAdmin
