import AdguardAdmin.SyncPass
/-!
# A second pass finds nothing to do

`Converged` says that a server has what a plan wants of it.  A pass that ends
without a failed request brings it about (`converged_of_pass`), and a pass over a
converged server requests nothing (`pass_quiet`), so one pass is enough.

The filter lists are the exception.  Every row of the plan is compared with the
answer from before the pass, so two rows that name one URL differently undo each
other in every pass; `quiet_iff_rowsAgree` says that this is the only way to miss
the fixpoint.
-/

namespace AdguardAdmin.SyncEnvironment

open Faulty Client

/-! ## Filter lists -/

def Settled (l : UrlLists) (f : FilterSpec) : Prop :=
  ⟨PyText.strip f.url, f.name, f.enabled⟩ ∈ l.entries

/-- Rows that name one URL agree on it. -/
def Agree (fs : List FilterSpec) : Prop :=
  ∀ f ∈ fs, ∀ g ∈ fs, PyText.strip f.url = PyText.strip g.url →
    f.name = g.name ∧ f.enabled = g.enabled

/-- URLs of a server's lists are unique. -/
theorem eq_of_url {l : UrlLists} {e e' : ListEntry} (he : e ∈ l.entries) (he' : e' ∈ l.entries)
    (hurl : e.url = e'.url) : e = e' :=
  List.inj_on_of_nodup_map l.keys he he' hurl

/-- Entries settle at most one row for a URL. -/
theorem agree_of_settled {l : UrlLists} {fs : List FilterSpec} (h : ∀ f ∈ fs, Settled l f) :
    Agree fs := by
  intro f hf g hg hurl
  have heq := eq_of_url (h f hf) (h g hg) hurl
  exact ⟨congrArg ListEntry.name heq, congrArg ListEntry.enabled heq⟩

/-- With unique URLs, `currentLists` has each list under its own. -/
theorem currentLists_eq (l : UrlLists) :
    currentLists l = l.entries.map fun e => (e.url, e) := by
  have hkeep : l.entries.filter (·.url ≠ "") = l.entries := by
    rw [List.filter_eq_self]
    intro e he
    simpa using (l.urls e he).2
  unfold currentLists
  rw [hkeep]
  refine List.map_congr_left ?_
  intro e he
  rw [(l.urls e he).1]

/-- The keys of the current lists are the URLs, in their order. -/
theorem currentLists_keys (l : UrlLists) :
    (currentLists l).map (·.1) = l.entries.map (·.url) := by
  rw [currentLists_eq, List.map_map]
  rfl

/-- What is found under a URL is the list that has it. -/
theorem lookup_currentLists {l : UrlLists} {url : String} {e : ListEntry} :
    (currentLists l).reverse.lookup url = some e ↔ e ∈ l.entries ∧ e.url = url := by
  have hkeys : ((currentLists l).map Prod.fst).Nodup := by
    have hnodup := l.keys
    rwa [← currentLists_keys] at hnodup
  rw [PyText.lookup_reverse_eq_some_iff hkeys, currentLists_eq]
  simp only [List.mem_map, Prod.mk.injEq]
  constructor
  · rintro ⟨e', he', rfl, rfl⟩
    exact ⟨he', rfl⟩
  · rintro ⟨he, rfl⟩
    exact ⟨e, he, rfl, rfl⟩

/-- While the rows are worked off: the rows done so far are settled, and entries
under other URLs are as they were in the answer. -/
structure Working (snapshot : UrlLists) (done : List FilterSpec) (l : UrlLists) : Prop where
  settled : ∀ f ∈ done, Settled l f
  others : ∀ e : ListEntry, e.url ∉ desiredUrls done → (e ∈ l.entries ↔ e ∈ snapshot.entries)

/-- The URL of a desired list is desired. -/
theorem mem_desiredUrls_of_mem {fs : List FilterSpec} {f : FilterSpec} (hf : f ∈ fs) :
    PyText.strip f.url ∈ desiredUrls fs :=
  List.mem_map.mpr ⟨f, hf, rfl⟩

/-- The desired URLs of two runs of lists follow each other. -/
theorem desiredUrls_append (fs gs : List FilterSpec) :
    desiredUrls (fs ++ gs) = desiredUrls fs ++ desiredUrls gs := by
  simp [desiredUrls]

/-- A row whose URL is new is added under its name and flag. -/
theorem Working.added {snapshot l l' : UrlLists} {done : List FilterSpec} {f : FilterSpec}
    (h : Working snapshot done l)
    (hentries : l'.entries = l.entries ++ [⟨PyText.strip f.url, f.name, f.enabled⟩]) :
    Working snapshot (done ++ [f]) l' := by
  constructor
  · intro g hg
    unfold Settled
    rw [hentries]
    rcases List.mem_append.mp hg with hg | hg
    · exact List.mem_append_left _ (h.settled g hg)
    · obtain rfl : g = f := by simpa using hg
      exact List.mem_append_right _ (by simp)
  · intro e he
    rw [desiredUrls_append, List.mem_append, not_or] at he
    have hne : e.url ≠ PyText.strip f.url := by simpa [desiredUrls] using he.2
    have hnot : e ≠ ⟨PyText.strip f.url, f.name, f.enabled⟩ := fun heq => hne (by rw [heq])
    rw [hentries, List.mem_append, ← h.others e he.1]
    simp [hnot]

/-- A row whose URL is present is edited; the rows before it that name the URL agree. -/
theorem Working.edited {snapshot l l' : UrlLists} {done : List FilterSpec} {f : FilterSpec}
    (h : Working snapshot done l) (hagree : Agree (done ++ [f]))
    (hpresent : PyText.strip f.url ∈ l.entries.map (·.url))
    (hentries : l'.entries = l.entries.map (UrlLists.edit (PyText.strip f.url) f.name f.enabled)) :
    Working snapshot (done ++ [f]) l' := by
  constructor
  · intro g hg
    unfold Settled
    rw [hentries]
    rcases List.mem_append.mp hg with hgdone | hgf
    · refine List.mem_map.mpr ⟨_, h.settled g hgdone, ?_⟩
      by_cases hurl : PyText.strip g.url = PyText.strip f.url
      · obtain ⟨hname, henabled⟩ := hagree g hg f (by simp) hurl
        simp [UrlLists.edit, hurl, hname, henabled]
      · simp [UrlLists.edit, hurl]
    · obtain rfl : g = f := by simpa using hgf
      obtain ⟨e, he, hurl⟩ := List.mem_map.mp hpresent
      refine List.mem_map.mpr ⟨e, he, ?_⟩
      simp [UrlLists.edit, hurl]
  · intro e he
    rw [desiredUrls_append, List.mem_append, not_or] at he
    have hne : e.url ≠ PyText.strip f.url := by simpa [desiredUrls] using he.2
    rw [hentries, ← h.others e he.1]
    constructor
    · intro hmem
      obtain ⟨old, hold, rfl⟩ := List.mem_map.mp hmem
      rw [UrlLists.edit_url] at hne
      rwa [UrlLists.edit, if_neg hne]
    · intro hmem
      exact List.mem_map.mpr ⟨e, hmem, by rw [UrlLists.edit, if_neg hne]⟩

/-- A row that the answer already settles stays settled. -/
theorem Working.kept {snapshot l : UrlLists} {done : List FilterSpec} {f : FilterSpec}
    (h : Working snapshot done l) (hagree : Agree (done ++ [f])) (hf : Settled snapshot f) :
    Working snapshot (done ++ [f]) l := by
  constructor
  · intro g hg
    rcases List.mem_append.mp hg with hg | hg
    · exact h.settled g hg
    · obtain rfl : g = f := by simpa using hg
      by_cases hbefore : PyText.strip g.url ∈ desiredUrls done
      · obtain ⟨g', hg', hurl⟩ := List.mem_map.mp hbefore
        obtain ⟨hname, henabled⟩ := hagree g' (List.mem_append_left _ hg') g (by simp) hurl
        have hsettled := h.settled g' hg'
        unfold Settled at hsettled ⊢
        rwa [hurl, hname, henabled] at hsettled
      · exact (h.others _ hbefore).mpr hf
  · intro e he
    rw [desiredUrls_append, List.mem_append, not_or] at he
    exact h.others e he.1

/-- The server with other lists of one kind. -/
def withLists (s : AdGuard) (kind : FilterKind) (l : UrlLists) : AdGuard :=
  { s with lists := Function.update s.lists kind l }

@[simp] theorem withLists_lists (s : AdGuard) (kind : FilterKind) (l : UrlLists) :
    (withLists s kind l).lists kind = l := Function.update_self ..

theorem withLists_self (s : AdGuard) (kind : FilterKind) : withLists s kind (s.lists kind) = s := by
  simp [withLists]

theorem withLists_withLists (s : AdGuard) (kind : FilterKind) (l l' : UrlLists) :
    withLists (withLists s kind l) kind l' = withLists s kind l' := by
  simp [withLists]

section Run

variable {script : Script Call} {w t : Exchange} {kind : FilterKind}

/-- A list that was added is the last one, and had been missing. -/
theorem filteringAddUrl_ok {name url : String} {u : Unit}
    (h : (filteringAddUrl name url kind).run script w = (.ok u, t)) :
    ∃ l, l.entries = (w.server.lists kind).entries ++ [⟨url, name, true⟩] ∧
      url ∉ (w.server.lists kind).entries.map (·.url) ∧
      t.server = withLists w.server kind l ∧ t.failed = w.failed := by
  obtain ⟨l, hadd, hserver, hfailed⟩ := changeList_ok h
  unfold UrlLists.add? at hadd
  split at hadd
  · next hnew =>
      obtain rfl := Option.some.inj hadd
      exact ⟨_, rfl, hnew.1, hserver, hfailed⟩
  · exact nomatch hadd

/-- A list that was edited had been there, and is edited in its place. -/
theorem filteringSetUrl_ok {url name : String} {enabled : Bool} {u : Unit}
    (h : (filteringSetUrl url name enabled kind).run script w = (.ok u, t)) :
    ∃ l, l.entries = (w.server.lists kind).entries.map (UrlLists.edit url name enabled) ∧
      url ∈ (w.server.lists kind).entries.map (·.url) ∧
      t.server = withLists w.server kind l ∧ t.failed = w.failed := by
  obtain ⟨l, hset, hserver, hfailed⟩ := changeList_ok h
  unfold UrlLists.set? at hset
  split at hset
  · next hpresent =>
      obtain rfl := Option.some.inj hset
      exact ⟨_, rfl, hpresent, hserver, hfailed⟩
  · exact nomatch hset

/-- A list that was removed is gone, and nothing else has changed. -/
theorem filteringRemoveUrl_ok {url : String} {u : Unit}
    (h : (filteringRemoveUrl url kind).run script w = (.ok u, t)) :
    t.server = withLists w.server kind ((w.server.lists kind).remove url) ∧
      t.failed = w.failed := by
  obtain ⟨l, hremove, hserver, hfailed⟩ := changeList_ok h
  obtain rfl := Option.some.inj hremove
  exact ⟨hserver, hfailed⟩

/-- **One row.**  Working a row off keeps the invariant. -/
theorem pushFilter_ok {snapshot : UrlLists} {done : List FilterSpec} {f : FilterSpec}
    {changed : Bool} (hagree : Agree (done ++ [f]))
    (hwork : Working snapshot done (w.server.lists kind))
    (h : (pushFilter false kind (currentLists snapshot) f).run script w = (.ok changed, t)) :
    ∃ l, t.server = withLists w.server kind l ∧ t.failed = w.failed ∧
      Working snapshot (done ++ [f]) l := by
  unfold pushFilter at h
  dsimp only at h
  split at h
  · next hnone =>
      simp only [Prog.bind_ok, Prog.onlyIf_ok, Prog.pure_ok] at h
      obtain ⟨_, _, hrun, -, rfl⟩ := h
      rcases hrun with ⟨-, _, v, hadd, hset⟩ | ⟨hdry, -⟩
      · obtain ⟨l, hl, hnew, hserver, hfailed⟩ := filteringAddUrl_ok hadd
        rcases hset with ⟨hdisabled, hset⟩ | ⟨henabled, rfl⟩
        · obtain ⟨l', hl', -, hserver', hfailed'⟩ := filteringSetUrl_ok hset
          rw [hserver, withLists_lists] at hl'
          refine ⟨l', ?_, by rw [hfailed', hfailed], hwork.added ?_⟩
          · rw [hserver', hserver, withLists_withLists]
          · -- the entry added last is the only one under this URL
            have hold : (w.server.lists kind).entries.map
                (UrlLists.edit (PyText.strip f.url) f.name false) =
                (w.server.lists kind).entries := by
              refine (List.map_congr_left ?_).trans (List.map_id' _)
              intro e he
              have hne : e.url ≠ PyText.strip f.url := fun heq =>
                hnew (List.mem_map.mpr ⟨e, he, heq⟩)
              rw [UrlLists.edit, if_neg hne]
            rw [hl', hl, List.map_append, hold, hdisabled]
            simp [UrlLists.edit]
        · refine ⟨l, hserver, hfailed, hwork.added ?_⟩
          rw [hl, Bool.eq_true_of_not_eq_false henabled]
      · exact absurd trivial hdry
  · next cur hcur =>
      obtain ⟨hmem, hurl⟩ := lookup_currentLists.mp hcur
      split at h
      · simp only [Prog.bind_ok, Prog.onlyIf_ok, Prog.pure_ok] at h
        obtain ⟨_, _, hrun, -, rfl⟩ := h
        rcases hrun with ⟨-, hset⟩ | ⟨hdry, -⟩
        · obtain ⟨l, hl, hpresent, hserver, hfailed⟩ := filteringSetUrl_ok hset
          exact ⟨l, hserver, hfailed, hwork.edited hagree hpresent hl⟩
        · exact absurd trivial hdry
      · next hsame =>
          obtain ⟨-, rfl⟩ := Prog.pure_ok.mp h
          rw [not_or, not_not, not_not] at hsame
          have hsettled : Settled snapshot f := by
            unfold Settled
            rw [← hurl, ← hsame.1, ← hsame.2]
            exact hmem
          exact ⟨_, (withLists_self _ _).symm, rfl, hwork.kept hagree hsettled⟩

/-- **Working off all rows** keeps the invariant. -/
theorem pushFilters_ok {snapshot : UrlLists} {done fs : List FilterSpec} {changed : Bool}
    (hagree : Agree (done ++ fs)) (hwork : Working snapshot done (w.server.lists kind))
    (h : (pushFilters false kind (currentLists snapshot) fs).run script w = (.ok changed, t)) :
    ∃ l, t.server = withLists w.server kind l ∧ t.failed = w.failed ∧
      Working snapshot (done ++ fs) l := by
  induction fs generalizing done w changed with
  | nil =>
      obtain ⟨-, rfl⟩ := Prog.pure_ok.mp h
      rw [List.append_nil]
      exact ⟨_, (withLists_self _ _).symm, rfl, hwork⟩
  | cons f rest ih =>
      simp only [pushFilters, Prog.bind_ok, Prog.pure_ok] at h
      obtain ⟨first, v, hfirst, later, v', hlater, -, rfl⟩ := h
      have hshape : done ++ f :: rest = done ++ [f] ++ rest := by simp
      rw [hshape] at hagree ⊢
      have hagree' : Agree (done ++ [f]) := fun g hg g' hg' =>
        hagree g (List.mem_append_left _ hg) g' (List.mem_append_left _ hg')
      obtain ⟨l, hserver, hfailed, hwork'⟩ := pushFilter_ok hagree' hwork hfirst
      have hlists : v.server.lists kind = l := by rw [hserver, withLists_lists]
      rw [← hlists] at hwork'
      obtain ⟨l', hserver', hfailed', hwork''⟩ := ih hagree hwork' hlater
      refine ⟨l', ?_, by rw [hfailed', hfailed], hwork''⟩
      rw [hserver', hserver, withLists_withLists]

/-- **Pruning.**  Entries under the given URLs stay exactly when they are desired. -/
theorem pruneFilters_ok {desired urls : List String} {changed : Bool}
    (hurls : ∀ url ∈ urls, url ≠ "")
    (h : (pruneFilters false kind desired urls).run script w = (.ok changed, t)) :
    ∃ l, t.server = withLists w.server kind l ∧ t.failed = w.failed ∧
      ∀ e, e ∈ l.entries ↔
        e ∈ (w.server.lists kind).entries ∧ (e.url ∈ urls → e.url ∈ desired) := by
  induction urls generalizing w changed with
  | nil =>
      obtain ⟨-, rfl⟩ := Prog.pure_ok.mp h
      exact ⟨_, (withLists_self _ _).symm, rfl, by simp⟩
  | cons url rest ih =>
      have hrest : ∀ u ∈ rest, u ≠ "" := fun u hu => hurls u (List.mem_cons_of_mem url hu)
      unfold pruneFilters at h
      split at h
      · next hunwanted =>
          simp only [Prog.bind_ok, Prog.onlyIf_ok, Prog.pure_ok] at h
          obtain ⟨_, v, hremove | ⟨hdry, -⟩, _, _, hlater, -, rfl⟩ := h
          · obtain ⟨hserver, hfailed⟩ := filteringRemoveUrl_ok hremove.2
            obtain ⟨l, hserver', hfailed', hmem⟩ := ih hrest hlater
            rw [hserver, withLists_lists] at hmem
            refine ⟨l, ?_, by rw [hfailed', hfailed], ?_⟩
            · rw [hserver', hserver, withLists_withLists]
            · intro e
              rw [hmem, UrlLists.remove]
              simp only [List.mem_filter, decide_eq_true_eq, List.mem_cons, and_assoc]
              refine and_congr_right fun _ => ?_
              constructor
              · rintro ⟨hne, hkeep⟩ (heq | hin)
                · exact absurd heq hne
                · exact hkeep hin
              · intro hkeep
                refine ⟨?_, fun hin => hkeep (Or.inr hin)⟩
                intro heq
                exact hunwanted.2 (heq ▸ hkeep (Or.inl heq))
          · exact absurd trivial hdry
      · next hwanted =>
          obtain ⟨l, hserver, hfailed, hmem⟩ := ih hrest h
          have hdesired : url ∈ desired := by
            by_contra hnot
            exact hwanted ⟨hurls url List.mem_cons_self, hnot⟩
          refine ⟨l, hserver, hfailed, ?_⟩
          intro e
          rw [hmem]
          refine and_congr_right fun _ => ?_
          constructor
          · intro hkeep hin
            rcases List.mem_cons.mp hin with heq | hin
            · rw [heq]
              exact hdesired
            · exact hkeep hin
          · exact fun hkeep hin => hkeep (List.mem_cons_of_mem url hin)

end Run

/-! ## What a pass is for -/

/-- The lists of one kind are as the plan wants them. -/
structure ListsConverged (prune : Bool) (fs : List FilterSpec) (l : UrlLists) : Prop where
  settled : ∀ f ∈ fs, Settled l f
  wanted : prune = true → ∀ e ∈ l.entries, e.url ∈ desiredUrls fs

/-- The rewrites are as the plan wants them. -/
structure RewritesConverged (env : SyncEnvironment) (plan : ServerPlan) (rewrites : List Rewrite) :
    Prop where
  present : ∀ r ∈ plan.rewrites, env.key r ∈ rewrites.map env.key
  wanted : plan.prune = true → ∀ r ∈ rewrites, env.key r ∈ plan.rewrites.map env.key

def DnsConverged (plan : ServerPlan) (dns : DnsList → List String) : Prop :=
  plan.manageUpstreams = true → ∀ p ∈ plan.upstreamLists, p.2 ≠ [] →
    (dns p.1).toFinset = p.2.toFinset

def EngineConverged (plan : ServerPlan) (enabled : Bool) : Prop :=
  (plan.filters .blocklist).countP (·.enabled) ≠ 0 → enabled = true

def ServicesConverged (plan : ServerPlan) (ids : List String) : Prop :=
  plan.blockedServices ≠ [] → (targetServices plan ids).toFinset = ids.toFinset

/-- The server has what the plan wants of it. -/
structure Converged (env : SyncEnvironment) (plan : ServerPlan) (s : AdGuard) : Prop where
  rewrites : RewritesConverged env plan s.rewrites
  dns : DnsConverged plan s.dns
  lists : plan.manageFiltering = true →
    ∀ kind, ListsConverged plan.prune (plan.filters kind) (s.lists kind)
  engine : plan.manageFiltering = true → EngineConverged plan s.filteringEnabled
  services : plan.manageFiltering = true → ServicesConverged plan s.blockedIds

/-! ## A pass brings it about -/

section Run

variable {env : SyncEnvironment} {plan : ServerPlan} {script : Script Call} {w t : Exchange}

/-- A kind that was reconciled without a failure has converged, where the plan agrees with itself.
-/
theorem reconcileKind_ok {kind : FilterKind} {status : AdGuard} {changed : Bool}
    (hagree : Agree (plan.filters kind)) (hstatus : status.lists kind = w.server.lists kind)
    (h : (reconcileKind plan false status kind).run script w = (.ok changed, t)) :
    ∃ l, t.server = withLists w.server kind l ∧ t.failed = w.failed ∧
      ListsConverged plan.prune (plan.filters kind) l := by
  unfold reconcileKind at h
  obtain ⟨first, v, hpush, h⟩ := Prog.bind_ok.mp h
  have hstart : Working (status.lists kind) [] (w.server.lists kind) := by
    rw [hstatus]
    exact ⟨by simp, fun _ _ => Iff.rfl⟩
  obtain ⟨l, hserver, hfailed, hwork⟩ := pushFilters_ok hagree hstart hpush
  rw [List.nil_append] at hwork
  cases hprune : plan.prune with
  | false =>
      simp only [hprune, Bool.false_eq_true, if_false] at h
      obtain ⟨-, rfl⟩ := Prog.pure_ok.mp h
      exact ⟨l, hserver, hfailed, hwork.settled, fun hp => nomatch hp⟩
  | true =>
      simp only [hprune, if_true, Prog.bind_ok, Prog.pure_ok, currentLists_keys] at h
      obtain ⟨_, _, hpruned, -, rfl⟩ := h
      have hurls : ∀ url ∈ (status.lists kind).entries.map (·.url), url ≠ "" := by
        intro url hurl
        obtain ⟨e, he, rfl⟩ := List.mem_map.mp hurl
        exact ((status.lists kind).urls e he).2
      obtain ⟨l', hserver', hfailed', hmem⟩ := pruneFilters_ok hurls hpruned
      rw [hserver, withLists_lists] at hmem
      refine ⟨l', ?_, by rw [hfailed', hfailed], ?_, ?_⟩
      · rw [hserver', hserver, withLists_withLists]
      · intro f hf
        exact (hmem _).mpr ⟨hwork.settled f hf, fun _ => mem_desiredUrls_of_mem hf⟩
      · intro _ e he
        obtain ⟨hin, hkeep⟩ := (hmem e).mp he
        by_contra hnot
        have hold : e ∈ (status.lists kind).entries := (hwork.others e hnot).mp hin
        exact hnot (hkeep (List.mem_map.mpr ⟨e, hold, rfl⟩))

/-- The rewrites that were added stand behind the others. -/
theorem addRewrites_ok {rs : List Rewrite} {u : Unit}
    (h : (addRewrites rs).run script w = (.ok u, t)) :
    t.server = { w.server with rewrites := w.server.rewrites ++ rs } ∧ t.failed = w.failed := by
  induction rs generalizing w with
  | nil =>
      obtain ⟨-, rfl⟩ := Prog.pure_ok.mp h
      simp
  | cons r rest ih =>
      obtain ⟨_, v, hadd, hrest⟩ := Prog.bind_ok.mp h
      obtain ⟨hserver, hfailed⟩ := change_ok hadd
      obtain ⟨hserver', hfailed'⟩ := ih hrest
      rw [hserver', hfailed', hserver, hfailed]
      simp

/-- The rewrites that were deleted are gone. -/
theorem deleteRewrites_ok {rs : List Rewrite} {u : Unit}
    (h : (deleteRewrites rs).run script w = (.ok u, t)) :
    t.server = { w.server with rewrites := w.server.rewrites.filter (· ∉ rs) } ∧
      t.failed = w.failed := by
  induction rs generalizing w with
  | nil =>
      obtain ⟨-, rfl⟩ := Prog.pure_ok.mp h
      simp
  | cons r rest ih =>
      obtain ⟨_, v, hdelete, hrest⟩ := Prog.bind_ok.mp h
      obtain ⟨hserver, hfailed⟩ := change_ok hdelete
      obtain ⟨hserver', hfailed'⟩ := ih hrest
      rw [hserver', hfailed', hserver, hfailed]
      refine ⟨?_, rfl⟩
      simp only [List.filter_filter, List.mem_cons, not_or, Bool.decide_and, Bool.and_comm]

/-- **Rewrites converge.** -/
theorem reconcileRewrites_ok {same : Bool}
    (h : (env.reconcileRewrites plan false).run script w = (.ok same, t)) :
    ∃ rewrites, t.server = { w.server with rewrites := rewrites } ∧ t.failed = w.failed ∧
      RewritesConverged env plan rewrites := by
  simp only [reconcileRewrites, Prog.bind_ok, Prog.onlyIf_ok, Prog.pure_ok, Prog.update_ok] at h
  obtain ⟨current, v, hget, _, x, hrun, _, y, rfl, -, rfl⟩ := h
  obtain ⟨-, rfl, rfl⟩ := get_ok.mp hget
  rcases hrun with ⟨-, _, z, hadd, hdelete⟩ | ⟨hdry, -⟩
  · obtain ⟨hserver, hfailed⟩ := addRewrites_ok hadd
    obtain ⟨hserver', hfailed'⟩ := deleteRewrites_ok hdelete
    refine ⟨_, by rw [hserver', hserver], by rw [hfailed', hfailed], ?_, ?_⟩
    · -- what is desired and not there is added, and nothing desired is deleted
      intro r hr
      have hkeep : ∀ c : Rewrite, env.key c ∈ plan.rewrites.map env.key →
          c ∉ env.toDelete plan v.server.rewrites.dedup := by
        intro c hc hdeleted
        unfold toDelete at hdeleted
        split at hdeleted
        · simp only [List.mem_filter, decide_eq_true_eq] at hdeleted
          exact hdeleted.2 hc
        · simp at hdeleted
      have hkey : env.key r ∈ plan.rewrites.map env.key := List.mem_map.mpr ⟨r, hr, rfl⟩
      by_cases hthere : env.key r ∈ v.server.rewrites.dedup.map env.key
      · obtain ⟨c, hc, hsame⟩ := List.mem_map.mp hthere
        refine List.mem_map.mpr ⟨c, List.mem_filter.mpr ⟨?_, ?_⟩, hsame⟩
        · exact List.mem_append_left _ (List.mem_dedup.mp hc)
        · rw [← hsame] at hkey
          simpa using hkeep c hkey
      · refine List.mem_map.mpr ⟨r, List.mem_filter.mpr ⟨?_, ?_⟩, rfl⟩
        · refine List.mem_append_right _ (List.mem_filter.mpr ⟨hr, ?_⟩)
          simpa using hthere
        · simpa using hkeep r hkey
    · intro hprune c hc
      obtain ⟨hin, hnot⟩ := List.mem_filter.mp hc
      by_contra hunwanted
      rcases List.mem_append.mp hin with hin | hin
      · have hdeleted : c ∈ env.toDelete plan v.server.rewrites.dedup := by
          simp only [toDelete, hprune, if_true, List.mem_filter, List.mem_dedup,
            decide_eq_true_eq]
          exact ⟨hin, hunwanted⟩
        simp [hdeleted] at hnot
      · exact hunwanted (List.mem_map.mpr ⟨c, (List.mem_filter.mp hin).1, rfl⟩)
  · exact absurd trivial hdry

/-- A list that is set is the one that was given. -/
theorem lookup_dnsPayload (info : DnsList → List String) {p : DnsList × List String}
    (hkeys : (plan.upstreamLists.map Prod.fst).Nodup) (hp : p ∈ plan.upstreamLists)
    (hne : p.2 ≠ []) :
    (((dnsPayload plan info).lookup p.1).getD (info p.1)).toFinset = p.2.toFinset := by
  have hkeys' : ((dnsPayload plan info).reverse.map Prod.fst).Nodup := by
    rw [List.map_reverse, List.nodup_reverse]
    exact hkeys.sublist (List.filter_sublist.map _)
  by_cases hsame : (info p.1).toFinset = p.2.toFinset
  · cases hlookup : (dnsPayload plan info).lookup p.1 with
    | none => exact hsame
    | some vals =>
        rw [← List.reverse_reverse (dnsPayload plan info),
          PyText.lookup_reverse_eq_some_iff hkeys', List.mem_reverse] at hlookup
        have hmem := (List.mem_filter.mp hlookup).1
        have heq : (p.1, vals) = p := List.inj_on_of_nodup_map hkeys hmem hp rfl
        rw [Option.getD_some, ← heq]
  · have hlookup : (dnsPayload plan info).lookup p.1 = some p.2 := by
      rw [← List.reverse_reverse (dnsPayload plan info),
        PyText.lookup_reverse_eq_some_iff hkeys', List.mem_reverse]
      exact List.mem_filter.mpr ⟨hp, by simp [hne, hsame]⟩
    rw [hlookup, Option.getD_some]

/-- A reconciled DNS section has the upstreams of the plan. -/
theorem reconcileDns_ok {same : Bool} (hkeys : (plan.upstreamLists.map Prod.fst).Nodup)
    (h : (reconcileDns plan false).run script w = (.ok same, t)) :
    ∃ dns private', t.server =
        { w.server with dns := dns, usePrivatePtrResolvers := private' } ∧
      t.failed = w.failed ∧ DnsConverged plan dns := by
  unfold reconcileDns at h
  split at h
  · obtain ⟨info, v, hget, h⟩ := Prog.bind_ok.mp h
    obtain ⟨-, rfl, rfl⟩ := get_ok.mp hget
    dsimp only at h
    split at h
    · next hempty =>
        obtain ⟨-, rfl⟩ := Prog.pure_ok.mp h
        refine ⟨_, _, rfl, rfl, ?_⟩
        intro _ p hp hne
        have hlookup := lookup_dnsPayload t.server.dns hkeys hp hne
        rwa [hempty] at hlookup
    · simp only [Prog.bind_ok, Prog.onlyIf_ok, Prog.pure_ok] at h
      obtain ⟨_, _, ⟨-, hset⟩ | ⟨hdry, -⟩, -, rfl⟩ := h
      · obtain ⟨hserver, hfailed⟩ := change_ok hset
        refine ⟨_, _, hserver, hfailed, ?_⟩
        intro _ p hp hne
        exact lookup_dnsPayload _ hkeys hp hne
      · exact absurd trivial hdry
  · next hunmanaged =>
      obtain ⟨-, rfl⟩ := Prog.pure_ok.mp h
      exact ⟨_, _, rfl, rfl, fun hmanaged => absurd hmanaged hunmanaged⟩

/-- A reconciled engine is as the plan has it. -/
theorem reconcileEngine_ok {status : AdGuard} {changed : Bool}
    (hstatus : status.filteringEnabled = w.server.filteringEnabled)
    (h : (reconcileEngine plan false status).run script w = (.ok changed, t)) :
    ∃ enabled interval, t.server =
        { w.server with filteringEnabled := enabled, interval := interval } ∧
      t.failed = w.failed ∧ EngineConverged plan enabled := by
  unfold reconcileEngine at h
  split at h
  · simp only [Prog.bind_ok, Prog.onlyIf_ok, Prog.pure_ok] at h
    obtain ⟨_, _, ⟨-, hset⟩ | ⟨hdry, -⟩, -, rfl⟩ := h
    · obtain ⟨hserver, hfailed⟩ := change_ok hset
      exact ⟨_, _, hserver, hfailed, fun _ => rfl⟩
    · exact absurd trivial hdry
  · next hon =>
      obtain ⟨-, rfl⟩ := Prog.pure_ok.mp h
      refine ⟨_, _, rfl, rfl, ?_⟩
      intro hcount
      rw [← hstatus]
      by_contra hoff
      exact hon ⟨hcount, Bool.eq_false_of_not_eq_true hoff⟩

/-- The services that a pass blocks are those that the next one would. -/
theorem targetServices_stable (ids : List String) :
    (targetServices plan (sortedSet (targetServices plan ids))).toFinset =
      (sortedSet (targetServices plan ids)).toFinset := by
  ext id
  unfold targetServices
  split
  · simp
  · simp only [List.mem_toFinset, mem_sortedSet, List.mem_append]
    tauto

/-- Blocked services converge, unless a request failed. -/
theorem reconcileServices_ok {changed : Bool}
    (h : (reconcileServices plan false).run script w = (.ok changed, t))
    (hnone : t.failed = false) :
    ∃ ids schedule, t.server = { w.server with blockedIds := ids, schedule := schedule } ∧
      w.failed = false ∧ ServicesConverged plan ids := by
  unfold reconcileServices at h
  split at h
  · next hempty =>
      obtain ⟨-, rfl⟩ := Prog.pure_ok.mp h
      exact ⟨_, _, rfl, hnone, fun hne => absurd hempty hne⟩
  · obtain ⟨answer, v, hget, h⟩ := Prog.bind_ok.mp h
    rw [Prog.caught_ok] at hget
    cases answer with
    | error e =>
        simp only [Prog.bind_ok, Prog.pure_ok, noteFailure, Prog.update_ok] at h
        obtain ⟨_, _, rfl, -, rfl⟩ := h
        exact nomatch hnone
    | ok answer =>
        obtain ⟨-, rfl, rfl⟩ := get_ok.mp hget
        dsimp only at h
        split at h
        · next hsame =>
            obtain ⟨-, rfl⟩ := Prog.pure_ok.mp h
            exact ⟨_, _, rfl, hnone, fun _ => hsame⟩
        · simp only [Prog.bind_ok, Prog.pure_ok, Prog.caught_ok] at h
          obtain ⟨sent, x, hsent, _, y, hnote, -, rfl⟩ := h
          cases sent with
          | error e =>
              simp only [Except.isOk, Except.toBool, Prog.onlyIf_ok, noteFailure,
                Prog.update_ok, true_and, not_true, false_and, or_false] at hnote
              rw [hnote] at hnone
              exact nomatch hnone
          | ok _ =>
              simp only [Except.isOk, Except.toBool, Prog.onlyIf_ok, Bool.true_eq_false, false_and,
                not_false_eq_true, true_and, false_or] at hnote
              subst hnote
              rcases Prog.onlyIf_ok.mp hsent with ⟨-, hsent⟩ | ⟨hdry, -⟩
              · obtain ⟨hserver, hfailed⟩ := change_ok hsent
                refine ⟨_, _, hserver, by rw [← hfailed, hnone], ?_⟩
                exact fun _ => targetServices_stable _
              · exact absurd trivial hdry

/-- Filtering that was reconciled without a failure has converged. -/
theorem reconcileFiltering_ok {changed : Bool} (hagree : ∀ kind, Agree (plan.filters kind))
    (h : (reconcileFiltering plan false).run script w = (.ok changed, t))
    (hnone : t.failed = false) :
    ∃ lists enabled interval ids schedule, t.server =
        { w.server with
          lists := lists
          filteringEnabled := enabled
          interval := interval
          blockedIds := ids
          schedule := schedule } ∧
      (plan.manageFiltering = true →
        (∀ kind, ListsConverged plan.prune (plan.filters kind) (lists kind)) ∧
          EngineConverged plan enabled ∧ ServicesConverged plan ids) := by
  unfold reconcileFiltering at h
  split at h
  · simp only [Prog.bind_ok, Prog.pure_ok] at h
    obtain ⟨status, v, hget, _, v₁, hblocks, _, v₂, hallows, _, v₃, hengine, _, _, hservices, -,
      rfl⟩ := h
    obtain ⟨-, hstatus, rfl⟩ := get_ok.mp hget
    rw [id_eq] at hstatus
    subst hstatus
    obtain ⟨blocks, hserver₁, -, hblocks⟩ := reconcileKind_ok (hagree _) rfl hblocks
    have hallowlist : v.server.lists .allowlist = v₁.server.lists .allowlist := by
      rw [hserver₁]
      simp [withLists]
    obtain ⟨allows, hserver₂, -, hallows⟩ := reconcileKind_ok (hagree _) hallowlist hallows
    have hswitch : v.server.filteringEnabled = v₂.server.filteringEnabled := by
      rw [hserver₂, hserver₁]
      rfl
    obtain ⟨enabled, interval, hserver₃, -, hengine⟩ := reconcileEngine_ok hswitch hengine
    obtain ⟨ids, schedule, hserver₄, -, hservices⟩ := reconcileServices_ok hservices hnone
    refine ⟨_, _, _, _, _, by rw [hserver₄, hserver₃, hserver₂, hserver₁]; rfl, fun _ =>
      ⟨?_, hengine, hservices⟩⟩
    intro kind
    cases kind with
    | blocklist => simpa [withLists] using hblocks
    | allowlist => simpa [withLists] using hallows
  · next hunmanaged =>
      obtain ⟨-, rfl⟩ := Prog.pure_ok.mp h
      exact ⟨_, _, _, _, _, rfl, fun hmanaged => absurd hmanaged hunmanaged⟩

/-- The check of the version changes nothing. -/
theorem checkVersion_ok {u : Unit} (h : checkVersion.run script w = (.ok u, t)) :
    t.server = w.server := by
  unfold checkVersion at h
  obtain ⟨answer, v, hget, h⟩ := Prog.bind_ok.mp h
  rw [Prog.caught_ok] at hget
  cases answer with
  | error e =>
      have hstate : v = w := by
        have hsame := get_state (f := script) (w := w) .versionCheck (·.versionInfo)
        rwa [hget] at hsame
      rw [Prog.update_ok.mp h, hstate]
  | ok info =>
      obtain ⟨-, rfl, rfl⟩ := get_ok.mp hget
      rw [Prog.update_ok.mp h]

/-- **A pass that ends well, with no request failed, leaves a converged server.** -/
theorem converged_of_pass {u : Unit} (hagree : ∀ kind, Agree (plan.filters kind))
    (hkeys : (plan.upstreamLists.map Prod.fst).Nodup)
    (h : (env.pass plan false).run script w = (.ok u, t)) (hnone : t.failed = false) :
    Converged env plan t.server := by
  unfold pass at h
  simp only [Prog.bind_ok, Prog.update_ok] at h
  obtain ⟨version, v₁, hget, _, _, rfl, _, v₂, hversion, _, v₃, hrewrites, _, v₄, hdns, _, _, rfl,
    _, v₅, hfiltering, rfl⟩ := h
  obtain ⟨-, rfl, rfl⟩ := get_ok.mp hget
  have hserver := checkVersion_ok hversion
  obtain ⟨rewrites, hserver₁, -, hrewrites⟩ := reconcileRewrites_ok hrewrites
  obtain ⟨dns, _, hserver₂, -, hdns⟩ := reconcileDns_ok hkeys hdns
  obtain ⟨_, _, _, _, _, hserver₃, hfiltering⟩ := reconcileFiltering_ok hagree hfiltering hnone
  dsimp only at hserver₃ ⊢
  rw [hserver₃, hserver₂, hserver₁]
  exact ⟨hrewrites, hdns, fun hm => (hfiltering hm).1, fun hm => (hfiltering hm).2.1,
    fun hm => (hfiltering hm).2.2⟩

end Run

/-! ## A pass over a converged server -/

/-- On a server in state `s`, whose requests all succeed, the program requests no
change and returns `a`. -/
def Quiet {α : Type} (script : Script Call) (s : AdGuard) (x : Client α) (a : α) : Prop :=
  ∀ w : Exchange, w.server = s → ∃ t, x.run script w = (.ok a, t) ∧ t.server = s ∧
    t.mutations = w.mutations ∧ t.failed = w.failed

section Quiet

variable {env : SyncEnvironment} {plan : ServerPlan} {script : Script Call} {s : AdGuard}

/-- Quiet steps in turn are quiet. -/
theorem Quiet.bind {α β : Type} {x : Client α} {k : α → Client β} {a : α} {b : β}
    (hx : Quiet script s x a) (hk : Quiet script s (k a) b) : Quiet script s (x >>= k) b := by
  intro w hw
  obtain ⟨t, hrun, hserver, hmutations, hfailed⟩ := hx w hw
  obtain ⟨t', hrun', hserver', hmutations', hfailed'⟩ := hk t hserver
  refine ⟨t', Prog.bind_ok.mpr ⟨a, t, hrun, hrun'⟩, hserver', ?_, ?_⟩
  · rw [hmutations', hmutations]
  · rw [hfailed', hfailed]

theorem quiet_pure {α : Type} (a : α) : Quiet script s (pure a) a :=
  fun w hw => ⟨w, rfl, hw, rfl, rfl⟩

/-- A read is quiet, and answers with the state. -/
theorem quiet_get {α : Type} {call : Call} (hcall : script call = .done) (answer : AdGuard → α) :
    Quiet script s (get call answer) (answer s) := by
  intro w hw
  exact ⟨w, get_ok.mpr ⟨hcall, by rw [hw], rfl⟩, hw, rfl, rfl⟩

/-- A quiet step may be caught. -/
theorem Quiet.caught {α : Type} {x : Client α} {a : α} (hx : Quiet script s x a) :
    Quiet script s (Prog.caught x) (.ok a) := by
  intro w hw
  obtain ⟨t, hrun, hrest⟩ := hx w hw
  exact ⟨t, Prog.caught_ok.mpr hrun, hrest⟩

/-- Reporting is not a request. -/
theorem quiet_report (report : Exchange → Exchange)
    (h : ∀ w, (report w).server = w.server ∧ (report w).mutations = w.mutations ∧
      (report w).failed = w.failed) : Quiet script s (Prog.update report) () := by
  intro w hw
  obtain ⟨hserver, hmutations, hfailed⟩ := h w
  exact ⟨report w, rfl, hserver.trans hw, hmutations, hfailed⟩

/-- Lists that are settled are not pushed. -/
theorem pushFilters_quiet {kind : FilterKind} {snapshot : UrlLists} {fs : List FilterSpec}
    (h : ∀ f ∈ fs, Settled snapshot f) :
    Quiet script s (pushFilters false kind (currentLists snapshot) fs) false := by
  induction fs with
  | nil => exact quiet_pure false
  | cons f rest ih =>
      have hcur : (currentLists snapshot).reverse.lookup (PyText.strip f.url) =
          some ⟨PyText.strip f.url, f.name, f.enabled⟩ :=
        lookup_currentLists.mpr ⟨h f List.mem_cons_self, rfl⟩
      have hfirst : Quiet script s (pushFilter false kind (currentLists snapshot) f) false := by
        simp only [pushFilter, hcur, ne_eq, not_true, or_false, if_false]
        exact quiet_pure false
      exact hfirst.bind ((ih fun g hg => h g (List.mem_cons_of_mem f hg)).bind (quiet_pure _))

/-- Desired lists are not pruned. -/
theorem pruneFilters_quiet {kind : FilterKind} {desired urls : List String}
    (h : ∀ url ∈ urls, url ∈ desired) :
    Quiet script s (pruneFilters false kind desired urls) false := by
  induction urls with
  | nil => exact quiet_pure false
  | cons url rest ih =>
      have hwanted : url ∈ desired := h url List.mem_cons_self
      simp only [pruneFilters, hwanted, not_true, and_false, if_false]
      exact ih fun u hu => h u (List.mem_cons_of_mem url hu)

/-- A kind that has converged is left alone. -/
theorem reconcileKind_quiet {kind : FilterKind}
    (h : ListsConverged plan.prune (plan.filters kind) (s.lists kind)) :
    Quiet script s (reconcileKind plan false s kind) false := by
  refine (pushFilters_quiet h.settled).bind ?_
  cases hprune : plan.prune with
  | false => exact quiet_pure false
  | true =>
      refine (pruneFilters_quiet ?_).bind (quiet_pure _)
      intro url hurl
      rw [currentLists_keys] at hurl
      obtain ⟨e, he, rfl⟩ := List.mem_map.mp hurl
      exact h.wanted hprune e he

/-- An engine that has converged is left alone. -/
theorem reconcileEngine_quiet (h : EngineConverged plan s.filteringEnabled) :
    Quiet script s (reconcileEngine plan false s) false := by
  have hon : ¬ ((plan.filters .blocklist).countP (·.enabled) ≠ 0 ∧ s.filteringEnabled = false) := by
    rintro ⟨hcount, hoff⟩
    rw [h hcount] at hoff
    exact nomatch hoff
  unfold reconcileEngine
  rw [if_neg hon]
  exact quiet_pure false

/-- Services that have converged are left alone. -/
theorem reconcileServices_quiet (hscript : ∀ call, script call = .done)
    (h : ServicesConverged plan s.blockedIds) :
    Quiet script s (reconcileServices plan false) false := by
  unfold reconcileServices
  split
  · exact quiet_pure false
  · next hne =>
      refine (quiet_get (hscript _) _).caught.bind ?_
      dsimp only
      rw [if_pos (h hne)]
      exact quiet_pure false

/-- Filtering that has converged is left alone. -/
theorem reconcileFiltering_quiet (hscript : ∀ call, script call = .done)
    (h : Converged env plan s) : Quiet script s (reconcileFiltering plan false) false := by
  unfold reconcileFiltering
  split
  · next hmanaged =>
      refine (quiet_get (hscript _) _).bind ?_
      refine (reconcileKind_quiet (h.lists hmanaged _)).bind ?_
      refine (reconcileKind_quiet (h.lists hmanaged _)).bind ?_
      refine (reconcileEngine_quiet (h.engine hmanaged)).bind ?_
      exact (reconcileServices_quiet hscript (h.services hmanaged)).bind (quiet_pure _)
  · exact quiet_pure false

/-- Rewrites that have converged are left alone. -/
theorem reconcileRewrites_quiet (hscript : ∀ call, script call = .done)
    (h : RewritesConverged env plan s.rewrites) :
    Quiet script s (env.reconcileRewrites plan false) true := by
  have hadd : env.toAdd plan s.rewrites.dedup = [] := by
    refine List.filter_eq_nil_iff.mpr ?_
    intro r hr
    obtain ⟨c, hc, hkey⟩ := List.mem_map.mp (h.present r hr)
    have hthere : env.key r ∈ s.rewrites.dedup.map env.key :=
      List.mem_map.mpr ⟨c, List.mem_dedup.mpr hc, hkey⟩
    simpa using hthere
  have hdelete : env.toDelete plan s.rewrites.dedup = [] := by
    unfold toDelete
    split
    · next hprune =>
        refine List.filter_eq_nil_iff.mpr ?_
        intro r hr
        simpa using h.wanted hprune r (List.mem_dedup.mp hr)
    · rfl
  unfold reconcileRewrites
  refine (quiet_get (hscript _) _).bind ?_
  rw [hadd, hdelete]
  refine Quiet.bind (a := ()) ?_ (Quiet.bind (a := ()) ?_ (quiet_pure true))
  · exact (quiet_pure ()).bind (quiet_pure ())
  · exact quiet_report _ fun _ => ⟨rfl, rfl, rfl⟩

/-- A DNS section that has converged is left alone. -/
theorem reconcileDns_quiet (hscript : ∀ call, script call = .done)
    (h : DnsConverged plan s.dns) : Quiet script s (reconcileDns plan false) true := by
  unfold reconcileDns
  split
  · next hmanaged =>
      have hpayload : dnsPayload plan s.dns = [] := by
        refine List.filter_eq_nil_iff.mpr ?_
        intro p hp
        by_cases hne : p.2 = []
        · simp [hne]
        · simp [h hmanaged p hp hne]
      refine (quiet_get (hscript _) _).bind ?_
      rw [hpayload]
      exact quiet_pure true
  · exact quiet_pure true

theorem checkVersion_quiet (hscript : ∀ call, script call = .done) :
    Quiet script s checkVersion () :=
  (quiet_get (hscript _) _).caught.bind (quiet_report _ fun _ => ⟨rfl, rfl, rfl⟩)

/-- **A pass over a converged server requests nothing and reports `in_sync`.** -/
theorem pass_quiet (hscript : ∀ call, script call = .done) (h : Converged env plan s)
    {w : Exchange} (hw : w.server = s) :
    ∃ t, (env.pass plan false).run script w = (.ok (), t) ∧ t.mutations = w.mutations ∧
      t.updates.inSync = true := by
  have hreport : Quiet script s (Prog.update fun w : Exchange => { w with
      result := { w.result with version := s.version }
      updates := { w.updates with version := s.version, lastSeen := some env.now } }) () :=
    quiet_report _ fun _ => ⟨rfl, rfl, rfl⟩
  have hupstreams : Quiet script s (Prog.update fun w : Exchange => { w with
      result := { w.result with upstreamsChanged := false } }) () :=
    quiet_report _ fun _ => ⟨rfl, rfl, rfl⟩
  obtain ⟨v₁, hrun₁, hs₁, hm₁, -⟩ := quiet_get (hscript .status) (·.version) w hw
  obtain ⟨v₂, hrun₂, hs₂, hm₂, -⟩ := hreport v₁ hs₁
  obtain ⟨v₃, hrun₃, hs₃, hm₃, -⟩ := checkVersion_quiet hscript v₂ hs₂
  obtain ⟨v₄, hrun₄, hs₄, hm₄, -⟩ := reconcileRewrites_quiet hscript h.rewrites v₃ hs₃
  obtain ⟨v₅, hrun₅, hs₅, hm₅, -⟩ := reconcileDns_quiet hscript h.dns v₄ hs₄
  obtain ⟨v₆, hrun₆, hs₆, hm₆, -⟩ := hupstreams v₅ hs₅
  obtain ⟨v₇, hrun₇, hs₇, hm₇, -⟩ := reconcileFiltering_quiet hscript h v₆ hs₆
  refine ⟨_, Prog.bind_ok.mpr ⟨_, v₁, hrun₁, Prog.bind_ok.mpr ⟨_, v₂, hrun₂, Prog.bind_ok.mpr
    ⟨_, v₃, hrun₃, Prog.bind_ok.mpr ⟨_, v₄, hrun₄, Prog.bind_ok.mpr ⟨_, v₅, hrun₅,
      Prog.bind_ok.mpr ⟨_, v₆, hrun₆, Prog.bind_ok.mpr ⟨_, v₇, hrun₇, rfl⟩⟩⟩⟩⟩⟩⟩, ?_, rfl⟩
  dsimp only
  rw [hm₇, hm₆, hm₅, hm₄, hm₃, hm₂, hm₁]

end Quiet

/-! ## What `in_sync` says -/

section Report

variable {env : SyncEnvironment} {plan : ServerPlan} {script : Script Call} {w t : Exchange}

/-- A list whose push changed nothing was settled. -/
theorem settled_of_pushFilter {dryRun : Bool} {kind : FilterKind} {snapshot : UrlLists}
    {f : FilterSpec}
    (h : (pushFilter dryRun kind (currentLists snapshot) f).run script w = (.ok false, t)) :
    Settled snapshot f := by
  unfold pushFilter at h
  dsimp only at h
  split at h
  · simp [Prog.bind_ok, Prog.pure_ok] at h
  · next cur hcur =>
      obtain ⟨hmem, hurl⟩ := lookup_currentLists.mp hcur
      split at h
      · simp [Prog.bind_ok, Prog.pure_ok] at h
      · next hsame =>
          rw [not_or, not_not, not_not] at hsame
          unfold Settled
          rw [← hurl, ← hsame.1, ← hsame.2]
          exact hmem

/-- Every list of a kind was settled, where its pushes changed nothing. -/
theorem settled_of_pushFilters {dryRun : Bool} {kind : FilterKind} {snapshot : UrlLists}
    {fs : List FilterSpec}
    (h : (pushFilters dryRun kind (currentLists snapshot) fs).run script w = (.ok false, t)) :
    ∀ f ∈ fs, Settled snapshot f := by
  induction fs generalizing w with
  | nil => simp
  | cons f rest ih =>
      simp only [pushFilters, Prog.bind_ok, Prog.pure_ok] at h
      obtain ⟨first, v, hfirst, later, v', hlater, hnone, rfl⟩ := h
      rw [eq_comm, Bool.or_eq_false_iff] at hnone
      rw [hnone.1] at hfirst
      rw [hnone.2] at hlater
      intro g hg
      rcases List.mem_cons.mp hg with rfl | hg
      · exact settled_of_pushFilter hfirst
      · exact ih hlater g hg

/-- A kind whose reconciliation changed nothing agrees with the plan. -/
theorem agree_of_reconcileKind {dryRun : Bool} {status : AdGuard} {kind : FilterKind}
    (h : (reconcileKind plan dryRun status kind).run script w = (.ok false, t)) :
    Agree (plan.filters kind) := by
  unfold reconcileKind at h
  obtain ⟨changed, v, hpush, h⟩ := Prog.bind_ok.mp h
  have hnone : changed = false := by
    split at h
    · obtain ⟨_, _, _, h⟩ := Prog.bind_ok.mp h
      have hor := (Prog.pure_ok.mp h).1
      rw [eq_comm, Bool.or_eq_false_iff] at hor
      exact hor.1
    · exact (Prog.pure_ok.mp h).1.symm
  rw [hnone] at hpush
  exact agree_of_settled (settled_of_pushFilters hpush)

/-- A pass that reports `in_sync` has found the rows of the plan agree. -/
theorem agree_of_pass {dryRun : Bool} {u : Unit} (hmanaged : plan.manageFiltering = true)
    (h : (env.pass plan dryRun).run script w = (.ok u, t)) (hsync : t.updates.inSync = true)
    (kind : FilterKind) : Agree (plan.filters kind) := by
  unfold pass at h
  simp only [Prog.bind_ok, Prog.update_ok] at h
  obtain ⟨_, _, -, _, _, -, _, _, -, _, _, -, _, _, -, _, _, -, changed, _, hfiltering, rfl⟩ := h
  have hnone : changed = false := by
    simp only [Bool.and_eq_true, Bool.not_eq_true'] at hsync
    exact hsync.2
  rw [hnone] at hfiltering
  unfold reconcileFiltering at hfiltering
  rw [if_pos hmanaged] at hfiltering
  simp only [Prog.bind_ok, Prog.pure_ok] at hfiltering
  obtain ⟨_, _, -, blocks, _, hblocks, allows, _, hallows, _, _, -, _, _, -, hor, -⟩ := hfiltering
  simp only [eq_comm (a := false), Bool.or_eq_false_iff] at hor
  cases kind with
  | blocklist =>
      rw [hor.1.1.1] at hblocks
      exact agree_of_reconcileKind hblocks
  | allowlist =>
      rw [hor.1.1.2] at hallows
      exact agree_of_reconcileKind hallows

end Report

/-! ## The fixpoint -/

/-- The filter-list rows that apply to a server and name one URL agree on it. -/
def RowsAgree (db : ConfigTables) (server : Server) : Prop :=
  server.manageFiltering = true → ∀ f ∈ db.filterLists, ∀ g ∈ db.filterLists,
    f.kind = g.kind → scopeMatches f.toScoped server = true →
      scopeMatches g.toScoped server = true → PyText.strip f.url ≠ "" →
        PyText.strip f.url = PyText.strip g.url → f.name = g.name ∧ f.enabled = g.enabled

/-- Rows agree exactly when the lists of each kind do. -/
theorem rowsAgree_iff (db : ConfigTables) (server : Server) :
    RowsAgree db server ↔
      (server.manageFiltering = true → ∀ kind, Agree ((buildPlan db server).filters kind)) := by
  unfold RowsAgree
  refine forall_congr' fun hmanaged => ?_
  have hplan : ∀ kind, (buildPlan db server).filters kind =
      (filtersForServer db server kind).map fun f => ⟨f.name, f.url, f.enabled⟩ := by
    intro kind
    simp [buildPlan, hmanaged]
  constructor
  · intro h kind f hf g hg hurl
    rw [hplan] at hf hg
    obtain ⟨a, ha, rfl⟩ := List.mem_map.mp hf
    obtain ⟨b, hb, rfl⟩ := List.mem_map.mp hg
    simp only [filtersForServer, List.mem_filter, Bool.and_eq_true, decide_eq_true_eq,
      ne_eq] at ha hb
    obtain ⟨harow, ⟨hakind, hascope⟩, hane⟩ := ha
    obtain ⟨hbrow, ⟨hbkind, hbscope⟩, -⟩ := hb
    exact h a harow b hbrow (hakind.trans hbkind.symm) hascope hbscope hane hurl
  · intro h f hf g hg hkind hfscope hgscope hne hurl
    have hmem : ∀ r ∈ db.filterLists, r.kind = f.kind → scopeMatches r.toScoped server = true →
        PyText.strip r.url ≠ "" →
          (⟨r.name, r.url, r.enabled⟩ : FilterSpec) ∈ (buildPlan db server).filters f.kind := by
      intro r hr hrkind hrscope hrne
      rw [hplan]
      refine List.mem_map.mpr ⟨r, List.mem_filter.mpr ⟨hr, ?_⟩, rfl⟩
      simp [hrkind, hrscope, hrne]
    exact h f.kind _ (hmem f hf rfl hfscope hne) _
      (hmem g hg hkind.symm hgscope (hurl ▸ hne)) hurl

/-- The environment of a later pass, with no request failing. -/
def later (env : SyncEnvironment) (now : Nat) : SyncEnvironment :=
  { env with network := fun _ => none, now := now }

/-- The pass that follows requests nothing and reports `in_sync`. -/
def FollowingQuiet (env : SyncEnvironment) (now : Nat) (plan : ServerPlan) (server : AdGuard) :
    Prop :=
  let first := env.applyPlan plan false server
  let second := (env.later now).applyPlan plan false first.server
  second.mutations = [] ∧ second.updates.inSync = true

/-- A pass without a failed request has reached its end. -/
theorem completed {env : SyncEnvironment} {plan : ServerPlan} {dryRun : Bool} {server : AdGuard}
    (h : (env.applyPlan plan dryRun server).failed = false) :
    env.clientError plan = none ∧ (env.pass plan dryRun).run env.script (start plan server) =
      (.ok (), env.applyPlan plan dryRun server) := by
  unfold applyPlan at h ⊢
  split at h
  · exact nomatch h
  · next hclient =>
      split at h
      · next t hrun => exact ⟨hclient, hrun⟩
      · exact nomatch h

/-- A pass that reports `in_sync` has reached its end. -/
theorem completed_of_inSync {env : SyncEnvironment} {plan : ServerPlan} {dryRun : Bool}
    {server : AdGuard} (h : (env.applyPlan plan dryRun server).updates.inSync = true) :
    (env.pass plan dryRun).run env.script (start plan server) =
      (.ok (), env.applyPlan plan dryRun server) := by
  unfold applyPlan at h ⊢
  split at h
  · exact nomatch h
  · split at h
    · next t hrun => exact hrun
    · exact nomatch h

/-- A pass whose client exists and that did not raise is what `applyPlan` does. -/
theorem applyPlan_of_run (env : SyncEnvironment) {plan : ServerPlan} {dryRun : Bool}
    {server : AdGuard} {t : Exchange} (hclient : env.clientError plan = none)
    (hrun : (env.pass plan dryRun).run env.script (start plan server) = (.ok (), t)) :
    env.applyPlan plan dryRun server = t := by
  unfold applyPlan
  rw [hclient]
  dsimp only
  rw [hrun]

/-- **One pass is enough exactly when no two filter-list rows disagree.**  After a
pass without a failed request, the next one requests no change and reports
`in_sync` if and only if the rows that name one URL agree on it. -/
theorem quiet_iff_rowsAgree (env : SyncEnvironment) (now : Nat) (db : ConfigTables)
    (row : Server) (server : AdGuard)
    (hok : (env.applyPlan (buildPlan db row) false server).failed = false) :
    FollowingQuiet env now (buildPlan db row) server ↔ RowsAgree db row := by
  obtain ⟨hclient, hrun⟩ := completed hok
  rw [rowsAgree_iff]
  constructor
  · rintro ⟨-, hsync⟩ hmanaged kind
    exact agree_of_pass hmanaged (completed_of_inSync hsync) hsync kind
  · intro hagree
    have hall : ∀ kind, Agree ((buildPlan db row).filters kind) := by
      intro kind
      cases hmanaged : row.manageFiltering with
      | true => exact hagree hmanaged kind
      | false => simp [buildPlan, hmanaged, Agree]
    have hkeys : ((buildPlan db row).upstreamLists.map Prod.fst).Nodup := by
      unfold buildPlan
      dsimp only
      split <;> simp
    obtain ⟨hrewrites, hdns, hlists, hengine, hservices⟩ :=
      converged_of_pass hall hkeys hrun hok
    have hconverged : Converged (env.later now) (buildPlan db row)
        (env.applyPlan (buildPlan db row) false server).server :=
      ⟨⟨hrewrites.present, hrewrites.wanted⟩, hdns, hlists, hengine, hservices⟩
    have hdone : ∀ call, (env.later now).script call = .done := fun _ => rfl
    obtain ⟨t, hrun', hmutations, hsync⟩ := pass_quiet (w := start _ _) hdone hconverged rfl
    have hsecond := applyPlan_of_run (env.later now) hclient hrun'
    unfold FollowingQuiet
    dsimp only
    rw [hsecond]
    exact ⟨hmutations, hsync⟩

instance (env : SyncEnvironment) (now : Nat) (plan : ServerPlan) (server : AdGuard) :
    Decidable (FollowingQuiet env now plan server) := inferInstanceAs (Decidable (_ ∧ _))

def healthy : SyncEnvironment := ⟨id, fun _ => none, fun _ => none, 0⟩

/-- A server of zone 1 whose filtering is managed. -/
def filteredServer : Server :=
  ⟨1, "dns-a", "http://10.0.0.11:3000", none, none, some 1, true, none, 53, false, none, none,
    false, false, true⟩

def globalList (name : String) : FilterList :=
  ⟨⟨.global, [], none⟩, name, "https://lists/ads", .blocklist, true⟩

def zoneList (name : String) : FilterList :=
  ⟨⟨.zone, [1], none⟩, name, "https://lists/ads", .blocklist, true⟩

/-- One subscribed list. -/
def oneList (name : String) : UrlLists where
  entries := [⟨"https://lists/ads", name, true⟩]
  keys := by simp
  urls := by
    have hurl : IsUrl "https://lists/ads" := by decide
    simpa using hurl

/-- An AdGuard that has the list under a name. -/
def subscribed (name : String) : AdGuard where
  version := none
  versionInfo := ⟨none, false, false⟩
  rewrites := []
  dns := fun _ => []
  usePrivatePtrResolvers := false
  lists := fun
    | .blocklist => oneList name
    | .allowlist => .empty
  filteringEnabled := true
  interval := some 24
  blockedIds := []
  schedule := none

/-- A list that is subscribed under an old name is renamed once. -/
theorem one_list_settles :
    FollowingQuiet healthy 60 (buildPlan ⟨[], [], [], [globalList "Ads"], []⟩ filteredServer)
      (subscribed "Old") := by
  refine (quiet_iff_rowsAgree healthy 60 ⟨[], [], [], [globalList "Ads"], []⟩ filteredServer
    (subscribed "Old") (by decide +kernel)).mpr ?_
  intro _ f hf g hg _ _ _ _ _
  obtain rfl := List.mem_singleton.mp hf
  obtain rfl := List.mem_singleton.mp hg
  exact ⟨rfl, rfl⟩

/-- A list reached through two scopes under two names is renamed in every pass. -/
theorem two_names_never_settle :
    (healthy.applyPlan (buildPlan ⟨[], [], [], [globalList "Ads", zoneList "Advertising"], []⟩
        filteredServer) false (subscribed "Ads")).failed = false ∧
      ¬ FollowingQuiet healthy 60
        (buildPlan ⟨[], [], [], [globalList "Ads", zoneList "Advertising"], []⟩ filteredServer)
        (subscribed "Ads") := by
  decide +kernel

end AdguardAdmin.SyncEnvironment
