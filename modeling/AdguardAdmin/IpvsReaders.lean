import AdguardAdmin.IpvsTable
/-!
# The two readers of the IPVS table

The table is read from the listings of `ipvsadm` or from the kernel's own file.  Neither
reader knows the services of firewall marks, and what is listed under such a head goes to
the service before it.

* `readers_agree_iff` — when both readers give the same services, and each its own rows.
-/

namespace AdguardAdmin.Ipvs

open GoText CursorReader Upserts

variable (p : Prints)

/-! ## Rows of a service and rows behind it -/

/-- What is read behind a service repeats its own rows: the last row of each server says of
it what the service says. -/
def Repeats (own behind : List Dest) : Prop :=
  ∀ r ∈ behind, ∃ d ∈ own, d.server = r.server ∧
    ∀ last, lastRow r.server behind = some last → last.numbers = d.numbers

/-- The last row of an endpoint is in the later part, if that has one. -/
theorem lastRow_append (e : Endpoint) (xs ys : List Dest) :
    lastRow e (xs ++ ys) = (lastRow e ys).or (lastRow e xs) := by
  rw [lastRow, List.filter_append, List.getLast?_append]
  rfl

/-- There is no last row of an endpoint exactly when no row has it. -/
theorem lastRow_eq_none {e : Endpoint} {rows : List Dest} :
    lastRow e rows = none ↔ ∀ r ∈ rows, r.server ≠ e := by
  simp [lastRow]

/-- The last row of an endpoint is one of the rows, and has that endpoint. -/
theorem lastRow_mem {e : Endpoint} {rows : List Dest} {r : Dest} (h : lastRow e rows = some r) :
    r ∈ rows ∧ r.server = e := by
  have hmem := List.mem_filter.mp (List.mem_of_getLast? h)
  exact ⟨hmem.1, by simpa using hmem.2⟩

/-- A row's endpoint has a last row. -/
theorem exists_lastRow {rows : List Dest} {r : Dest} (h : r ∈ rows) :
    ∃ last, lastRow r.server rows = some last := by
  rw [← Option.ne_none_iff_exists']
  exact fun hnone => lastRow_eq_none.mp hnone r h rfl

/-- Where servers are distinct, each has its own row for its last one. -/
theorem lastRow_of_mem {rows : List Dest} (hnodup : (rows.map (·.server)).Nodup) {d : Dest}
    (hd : d ∈ rows) : lastRow d.server rows = some d := by
  obtain ⟨last, hlast⟩ := exists_lastRow hd
  obtain ⟨hmem, hserver⟩ := lastRow_mem hlast
  rw [hlast, List.inj_on_of_nodup_map hnodup hmem hd hserver]

section Rows

variable {own behind : List Dest}

/-- What is filled in keeps its address. -/
theorem keeps_fill (kind : Kind) (rows : List Dest) :
    Keeps IpvsDest.addr (rows.map fun r => (p.name r.server, r.fill kind)) := by
  intro u hu d
  obtain ⟨r, -, rfl⟩ := List.mem_map.mp hu
  exact fill_addr kind r d

/-- Distinct endpoints have distinct names. -/
theorem names_nodup (hnodup : (own.map (·.server)).Nodup) :
    (own.map fun r => p.name r.server).Nodup := by
  have hnames := hnodup.map p.name_injective
  rwa [List.map_map] at hnames

/-- A service's own rows are read as they are. -/
theorem putPlain_own (hnodup : (own.map (·.server)).Nodup) :
    put p .plain own [] = own.map fun r => r.fill .plain (newDest (p.name r.server)) :=
  upsertAll_nil (fun _ => rfl) (fun _ _ _ => rfl) (names_nodup p hnodup)

/-- A later listing changes each row of a service once. -/
theorem put_own (kind : Kind) (hnodup : (own.map (·.server)).Nodup) {e : Dest → IpvsDest}
    (hname : ∀ r ∈ own, (e r).addr = p.name r.server) :
    put p kind own (own.map e) = own.map fun r => r.fill kind (e r) :=
  upsertAll_map (fun r _ d => fill_addr kind r d) hname (names_nodup p hnodup)

/-- Distinct rows are merged one by one. -/
theorem putAll_own (hnodup : (own.map (·.server)).Nodup) :
    putAll p own = own.map fun r => r.merged (newDest (p.name r.server)) := by
  have hstats := put_own p .stats hnodup
    (e := fun r => r.fill .plain (newDest (p.name r.server))) fun _ _ => rfl
  have hrate := put_own p .rate hnodup
    (e := fun r => r.fill .stats (r.fill .plain (newDest (p.name r.server)))) fun _ _ => rfl
  rw [putAll, putPlain_own p hnodup, hstats, hrate]
  rfl

/-- A name is there when it was there or a row has it. -/
theorem mem_names_put {kind : Kind} {rows : List Dest} {entries : List IpvsDest} {k : String} :
    k ∈ (put p kind rows entries).map IpvsDest.addr ↔
      k ∈ entries.map IpvsDest.addr ∨ ∃ r ∈ rows, p.name r.server = k := by
  rw [put, mem_keys_upsertAll (fun _ => rfl) (keeps_fill p kind rows), List.map_map]
  simp

/-- A listing of servers that are there adds no names. -/
theorem names_put (kind : Kind) {rows : List Dest} {entries : List IpvsDest}
    (hrows : ∀ r ∈ rows, p.name r.server ∈ entries.map IpvsDest.addr) :
    (put p kind rows entries).map IpvsDest.addr = entries.map IpvsDest.addr := by
  refine keys_upsertAll_of_mem (fun _ => rfl) (keeps_fill p kind rows) ?_
  intro u hu
  obtain ⟨r, hr, rfl⟩ := List.mem_map.mp hu
  exact hrows r hr

/-- The listings after the plain one add no names. -/
theorem names_putAll (rows : List Dest) :
    (putAll p rows).map IpvsDest.addr = (put p .plain rows []).map IpvsDest.addr := by
  have hplain : ∀ r ∈ rows, p.name r.server ∈ (put p .plain rows []).map IpvsDest.addr :=
    fun r hr => (mem_names_put p).mpr (.inr ⟨r, hr, rfl⟩)
  have hstats := names_put p .stats hplain
  unfold putAll
  rw [names_put p .rate (by rwa [hstats]), hstats]

/-- Rows behind a service that are about its servers add no names. -/
theorem names_putPlain_append (hnodup : (own.map (·.server)).Nodup)
    (hbehind : ∀ r ∈ behind, ∃ d ∈ own, d.server = r.server) :
    (put p .plain (own ++ behind) []).map IpvsDest.addr = own.map fun r => p.name r.server := by
  have hown : (put p .plain own []).map IpvsDest.addr = own.map fun r => p.name r.server := by
    rw [putPlain_own p hnodup, List.map_map]
    rfl
  have hsplit : put p .plain (own ++ behind) [] = put p .plain behind (put p .plain own []) := by
    rw [put, List.map_append, upsertAll_append]
    rfl
  rw [hsplit, names_put p .plain, hown]
  intro r hr
  obtain ⟨d, hd, hserver⟩ := hbehind r hr
  rw [hown, ← hserver]
  exact List.mem_map_of_mem hd

theorem Repeats.servers (h : Repeats own behind) : ∀ r ∈ behind, ∃ d ∈ own, d.server = r.server :=
  fun r hr => (h r hr).imp fun _ hd => ⟨hd.1, hd.2.1⟩

/-- Rows that repeat leave the last word on each server as it was. -/
theorem Repeats.lastRow (h : Repeats own behind) (hnodup : (own.map (·.server)).Nodup) {d : Dest}
    (hd : d ∈ own) :
    ∃ last, Ipvs.lastRow d.server (own ++ behind) = some last ∧ last.numbers = d.numbers := by
  rw [lastRow_append, lastRow_of_mem hnodup hd]
  cases hlast : Ipvs.lastRow d.server behind with
  | none => exact ⟨d, rfl, rfl⟩
  | some last =>
      obtain ⟨hmem, hserver⟩ := lastRow_mem hlast
      obtain ⟨d', hd', hserver', hnumbers⟩ := h last hmem
      rw [hserver] at hserver' hnumbers
      obtain rfl : d' = d := List.inj_on_of_nodup_map hnodup hd' hd hserver'
      exact ⟨last, rfl, hnumbers last hlast⟩

/-- Distinct rows keep their names, in their order. -/
theorem names_putPlain_own (hnodup : (own.map (·.server)).Nodup) :
    (put p .plain own []).map IpvsDest.addr = own.map fun r => p.name r.server := by
  rw [putPlain_own p hnodup, List.map_map]
  rfl

/-- Rows that repeat the service's own change nothing. -/
theorem putPlain_append (hnodup : (own.map (·.server)).Nodup) (hrepeats : Repeats own behind) :
    put p .plain (own ++ behind) [] = put p .plain own [] := by
  have hkeys := names_putPlain_append p hnodup hrepeats.servers
  rw [← names_putPlain_own p hnodup] at hkeys
  refine eq_of_find hkeys (by rw [names_putPlain_own p hnodup]; exact names_nodup p hnodup) ?_
  intro k hk
  rw [names_putPlain_own p hnodup] at hk
  obtain ⟨d, hd, rfl⟩ := List.mem_map.mp hk
  obtain ⟨last, hlast, hnumbers⟩ := hrepeats.lastRow hnodup hd
  rw [find_putPlain, find_putPlain, lastNamed_name, lastNamed_name, hlast,
    lastRow_of_mem hnodup hd, Option.map_some, Option.map_some, plain_eq_of_numbers hnumbers]

/-- **Rows behind a service are harmless exactly when they repeat its own.** -/
theorem putAll_append_iff (hnodup : (own.map (·.server)).Nodup) :
    putAll p (own ++ behind) = putAll p own ↔ Repeats own behind := by
  constructor
  · intro hsame r hr
    obtain ⟨last, hlast⟩ := exists_lastRow hr
    have hboth := congrArg (find IpvsDest.addr (p.name r.server)) hsame
    rw [find_putAll, find_putAll, lastNamed_name, lastNamed_name, lastRow_append, hlast,
      Option.some_or, Option.map_some] at hboth
    obtain ⟨d, hd, hmerged⟩ := Option.map_eq_some_iff.mp hboth.symm
    obtain ⟨hmem, hserver⟩ := lastRow_mem hd
    refine ⟨d, hmem, hserver, fun last' hlast' => ?_⟩
    obtain rfl : last = last' := Option.some.inj (hlast.symm.trans hlast')
    exact (merged_eq_iff.mp hmerged).symm
  · intro hrepeats
    have hown : (putAll p own).map IpvsDest.addr = own.map fun r => p.name r.server := by
      rw [names_putAll, names_putPlain_own p hnodup]
    have hkeys : (putAll p (own ++ behind)).map IpvsDest.addr = (putAll p own).map IpvsDest.addr := by
      rw [names_putAll, names_putPlain_append p hnodup hrepeats.servers, hown]
    refine eq_of_find hkeys (by rw [hown]; exact names_nodup p hnodup) fun k hk => ?_
    rw [hown] at hk
    obtain ⟨d, hd, rfl⟩ := List.mem_map.mp hk
    obtain ⟨last, hlast, hnumbers⟩ := hrepeats.lastRow hnodup hd
    rw [find_putAll, find_putAll, lastNamed_name, lastNamed_name, hlast,
      lastRow_of_mem hnodup hd, Option.map_some, Option.map_some, merged_eq_iff.mpr hnumbers]

end Rows

/-! ## The readers -/

/-- The services with an address, with their own rows. -/
def Table.addressed (t : Table) : List ((Proto × Endpoint) × List Dest) :=
  t.services.filterMap fun svc =>
    match svc.name with
    | .address proto e => some ((proto, e), svc.dests)
    | .mark _ => none

/-- The services with an address, with their own rows. -/
theorem addressed_eq (t : Table) : t.addressed = t.gathered.map fun g => (g.key, g.own) := by
  have hservices : ∀ services : List Service,
      (services.filterMap fun svc =>
        match svc.name with
        | .address proto e => some ((proto, e), svc.dests)
        | .mark _ => none) =
      (CursorReader.gathered (services.map Service.section)).map fun g => (g.key, g.own) := by
    intro services
    induction services with
    | nil => rfl
    | cons svc rest ih =>
        obtain ⟨name, dests, hdistinct⟩ := svc
        cases name with
        | address proto e => exact congrArg (List.cons _) ih
        | mark n => exact ih
  exact hservices t.services

/-- The destinations of a service are distinct. -/
theorem own_nodup {t : Table} {g : Gathered (Proto × Endpoint) Dest} (hg : g ∈ t.gathered) :
    (g.own.map (·.server)).Nodup := by
  have hmem : (g.key, g.own) ∈ t.addressed := by
    rw [addressed_eq]
    exact List.mem_map_of_mem hg
  obtain ⟨svc, -, hsvc⟩ := List.mem_filterMap.mp hmem
  have hdistinct := svc.distinct
  split at hsvc
  · have hown : svc.dests = g.own := congrArg Prod.snd (Option.some.inj hsvc)
    rwa [hown] at hdistinct
  · cases hsvc

/-- Both prints write an address so that the readers give it one name. -/
def Prints.Alike (e : Endpoint) : Prop := decodeProcAddr (p.hexName e) = some (p.name e)

/-- What the readers need of a table. -/
structure Readable (t : Table) : Prop where
  alike : ∀ g ∈ t.gathered, p.Alike g.key.2 ∧ ∀ r ∈ g.own, p.Alike r.server
  repeats : ∀ g ∈ t.gathered, Repeats g.own g.behind

/-- The readers give the same services with the same destinations, and each service the
rows it has in the kernel's table, also after the other two listings are merged. -/
structure ReadersAgree (t : Table) : Prop where
  same : parseListing (p.listing .plain t) .plain [] = parseProcIPVS (p.procText t)
  own : (parseListing (p.listing .plain t) .plain []).1 =
    t.addressed.map fun a =>
      ⟨listKey p a.1, a.2.map fun r => r.fill .plain (newDest (p.name r.server))⟩
  merged : (readListings (p.listing .plain t) (some (p.listing .stats t))
      (some (p.listing .rate t))).services =
    t.addressed.map fun a => ⟨listKey p a.1, a.2.map fun r => r.merged (newDest (p.name r.server))⟩

/-- The three listings agree with the kernel exactly when rows behind a service repeat. -/
theorem merged_iff (t : Table) :
    ((readListings (p.listing .plain t) (some (p.listing .stats t))
        (some (p.listing .rate t))).services =
      t.addressed.map fun a =>
        ⟨listKey p a.1, a.2.map fun r => r.merged (newDest (p.name r.server))⟩) ↔
      ∀ g ∈ t.gathered, Repeats g.own g.behind := by
  rw [readListings_services, addressed_eq, List.map_map, listed, List.map_inj_left]
  refine forall₂_congr fun g hg => ?_
  rw [← putAll_append_iff p (own_nodup hg), putAll_own p (own_nodup hg), Function.comp_apply,
    Block.mk.injEq]
  exact and_iff_right rfl

/-- Where marks repeat the rows before them, services are read with their own rows. -/
theorem own_of_repeats {t : Table} (hrepeats : ∀ g ∈ t.gathered, Repeats g.own g.behind) :
    (parseListing (p.listing .plain t) .plain []).1 =
      t.addressed.map fun a =>
        ⟨listKey p a.1, a.2.map fun r => r.fill .plain (newDest (p.name r.server))⟩ := by
  rw [parseListing_plain, addressed_eq, List.map_map, listed]
  refine List.map_congr_left fun g hg => ?_
  rw [Gathered.all, putPlain_append p (own_nodup hg) (hrepeats g hg),
    putPlain_own p (own_nodup hg)]
  rfl

/-! ### The kernel's own file -/

/-- What the file makes of a destination. -/
abbrev procChange (r : Dest) : Option (Change String IpvsDest) :=
  Dest.change (fun e => decodeProcAddr (p.hexName e)) .plain r

/-- The kernel's file is read as the services whose addresses decode. -/
theorem parseProcIPVS_services (t : Table) :
    (parseProcIPVS (p.procText t)).1 =
      upsertAll Block.key emptyBlock [] ((t.gathered.filterMap fun g =>
        (label (fun e => decodeProcAddr (p.hexName e)) g.key).map fun k =>
          (⟨k, g.own, g.behind⟩ : Gathered (String × String) Dest)).map fun g =>
        (g.key, merge IpvsDest.addr newDest (g.all.filterMap (procChange p)))) := by
  unfold parseProcIPVS
  dsimp only
  rw [(takes_procRow p).scan_rows (p.rows_procText t), scan_sections (by simp), gathered_rekey]
  rfl

/-- Under names it knows, the file is read service by service. -/
theorem parseProcIPVS_listed {t : Table} (halike : ∀ g ∈ t.gathered, p.Alike g.key.2) :
    (parseProcIPVS (p.procText t)).1 =
      listed p (fun g => upsertAll IpvsDest.addr newDest [] (g.all.filterMap (procChange p))) t := by
  have hknown : (t.gathered.filterMap fun g =>
      (label (fun e => decodeProcAddr (p.hexName e)) g.key).map fun k =>
        (⟨k, g.own, g.behind⟩ : Gathered (String × String) Dest)) =
      t.gathered.map fun g => ⟨listKey p g.key, g.own, g.behind⟩ := by
    rw [← List.filterMap_eq_map']
    refine List.filterMap_congr fun g hg => ?_
    have hname : decodeProcAddr (p.hexName g.key.2) = some (p.name g.key.2) := halike g hg
    simp [label, hname, listKey]
  rw [parseProcIPVS_services, hknown, List.map_map]
  exact upsertAll_nil (fun _ => rfl) (fun _ _ _ => rfl) (listKey_nodup p t)

/-- Rows under names it knows are read as in a listing. -/
theorem filterMap_procChange {rows : List Dest} (halike : ∀ r ∈ rows, p.Alike r.server) :
    rows.filterMap (procChange p) = rows.map fun r => (p.name r.server, r.fill .plain) := by
  rw [← List.filterMap_eq_map']
  refine List.filterMap_congr fun r hr => ?_
  have hname : decodeProcAddr (p.hexName r.server) = some (p.name r.server) := halike r hr
  simp [procChange, Dest.change, hname]

/-- The two readers agree on a table that both can read. -/
theorem same_of_readable {t : Table} (h : Readable p t) :
    parseListing (p.listing .plain t) .plain [] = parseProcIPVS (p.procText t) := by
  have hservices : (parseProcIPVS (p.procText t)).1 =
      (parseListing (p.listing .plain t) .plain []).1 := by
    rw [parseProcIPVS_listed p fun g hg => (h.alike g hg).1, parseListing_plain]
    refine List.map_congr_left fun g hg => ?_
    have hall : ∀ r ∈ g.all, p.Alike r.server := by
      intro r hr
      rcases List.mem_append.mp hr with hown | hbehind
      · exact (h.alike g hg).2 r hown
      · obtain ⟨d, hd, hserver⟩ := (h.repeats g hg).servers r hbehind
        exact hserver ▸ (h.alike g hg).2 d hd
    have hchanges := filterMap_procChange p hall
    dsimp only
    rw [hchanges, put]
  refine Prod.ext hservices.symm ?_
  rw [parseListing_order]
  have horder : (parseProcIPVS (p.procText t)).2 = (parseProcIPVS (p.procText t)).1.map (·.key) := rfl
  rw [horder, hservices, parseListing_plain, listed, List.map_map]
  rfl

/-- A file that is read like the listing writes every service so that it is known. -/
theorem services_alike {t : Table}
    (hsame : (parseProcIPVS (p.procText t)).1 = (parseListing (p.listing .plain t) .plain []).1) :
    ∀ g ∈ t.gathered, p.Alike g.key.2 := by
  have hkeys : List.Sublist (t.gathered.map fun g => listKey p g.key)
      (t.gathered.filterMap fun g => label (fun e => decodeProcAddr (p.hexName e)) g.key) := by
    have hlist : (parseProcIPVS (p.procText t)).1.map (·.key) =
        t.gathered.map fun g => listKey p g.key := by
      rw [hsame, parseListing_plain, listed, List.map_map]
      rfl
    rw [← hlist, parseProcIPVS_services]
    refine (keys_upsertAll_sublist (fun _ => rfl) ?_).trans ?_
    · intro u hu b
      obtain ⟨g, -, rfl⟩ := List.mem_map.mp hu
      rfl
    · have hlabels : (t.gathered.filterMap fun g =>
          ((label (fun e => decodeProcAddr (p.hexName e)) g.key).map fun k =>
            (⟨k, g.own, g.behind⟩ : Gathered (String × String) Dest)).map (·.key)) =
          t.gathered.filterMap fun g => label (fun e => decodeProcAddr (p.hexName e)) g.key := by
        refine List.filterMap_congr fun g _ => ?_
        cases label (fun e => decodeProcAddr (p.hexName e)) g.key <;> rfl
      rw [List.map_nil, List.nil_append, List.map_map, ← hlabels, ← List.map_filterMap]
      exact List.Sublist.refl _
  intro g hg
  have hlabel := eq_some_of_sublist hkeys g hg
  obtain ⟨addr, haddr, hkey⟩ := Option.map_eq_some_iff.mp hlabel
  have hname : addr = p.name g.key.2 := congrArg Prod.snd hkey
  rw [hname] at haddr
  exact haddr

/-- Where the kernel's file shows the same destinations, and those behind a service are among its
own, it names them alike. -/
theorem dests_alike {t : Table} {g : Gathered (Proto × Endpoint) Dest} (hg : g ∈ t.gathered)
    (hrepeats : Repeats g.own g.behind)
    (hsame : upsertAll IpvsDest.addr newDest [] (g.all.filterMap (procChange p)) =
      put p .plain g.all []) : ∀ r ∈ g.own, p.Alike r.server := by
  have hkeeps : ∀ rows : List Dest, Keeps IpvsDest.addr (rows.filterMap (procChange p)) := by
    intro rows u hu d
    obtain ⟨r, -, hr⟩ := List.mem_filterMap.mp hu
    obtain ⟨addr, -, rfl⟩ := Option.map_eq_some_iff.mp hr
    exact fill_addr .plain r d
  have hown : (upsertAll IpvsDest.addr newDest [] (g.all.filterMap (procChange p))).map
      IpvsDest.addr = g.own.map fun r => p.name r.server := by
    rw [hsame]
    exact names_putPlain_append p (own_nodup hg) hrepeats.servers
  -- the rows behind come under names that the service's own rows have made
  have hbehind : ∀ u ∈ g.behind.filterMap (procChange p),
      u.1 ∈ (upsertAll IpvsDest.addr newDest [] (g.own.filterMap (procChange p))).map
        IpvsDest.addr := by
    intro u hu
    obtain ⟨r, hr, hchange⟩ := List.mem_filterMap.mp hu
    obtain ⟨addr, haddr, rfl⟩ := Option.map_eq_some_iff.mp hchange
    obtain ⟨d, hd, hserver⟩ := hrepeats.servers r hr
    have hmade : procChange p d = some (addr, d.fill .plain) := by
      simp [procChange, Dest.change, hserver, haddr]
    rw [mem_keys_upsertAll (fun _ => rfl) (hkeeps g.own)]
    exact .inr (List.mem_map.mpr ⟨_, List.mem_filterMap.mpr ⟨d, hd, hmade⟩, rfl⟩)
  have hsub : List.Sublist (g.own.map fun r => p.name r.server)
      (g.own.filterMap fun r => decodeProcAddr (p.hexName r.server)) := by
    have hnames : (g.own.filterMap fun r => (procChange p r).map (·.1)) =
        g.own.filterMap fun r => decodeProcAddr (p.hexName r.server) := by
      refine List.filterMap_congr fun r _ => ?_
      simp only [procChange, Dest.change, Option.map_map]
      cases decodeProcAddr (p.hexName r.server) <;> rfl
    rw [← hown, Gathered.all, List.filterMap_append, upsertAll_append,
      keys_upsertAll_of_mem (fun _ => rfl) (hkeeps g.behind) hbehind, ← hnames,
      ← List.map_filterMap]
    exact keys_upsertAll_sublist (fun _ => rfl) (hkeeps g.own)
  exact eq_some_of_sublist hsub

/-- **The two readers agree exactly on the tables that are readable.**  For every table of
services of every kind and family, `ipvsadm`'s listing and the kernel's file are read as
the same services, each with its own destinations, weights and counts and, once the other
two listings are merged, with all of its counters, if and only if both write the addresses
of these services and destinations alike, and what services of a firewall mark list behind
such a service repeats its own rows. -/
theorem readers_agree_iff (t : Table) : ReadersAgree p t ↔ Readable p t := by
  constructor
  · intro hagree
    have hrepeats := (merged_iff p t).mp hagree.merged
    have hservices := congrArg Prod.fst hagree.same.symm
    have halike := services_alike p hservices
    refine ⟨fun g hg => ⟨halike g hg, ?_⟩, hrepeats⟩
    rw [parseProcIPVS_listed p halike, parseListing_plain, listed, listed,
      List.map_inj_left] at hservices
    have hentries := congrArg Block.entries (hservices g hg)
    exact dests_alike p hg (hrepeats g hg) hentries
  · intro hreadable
    exact ⟨same_of_readable p hreadable, own_of_repeats p hreadable.repeats,
      (merged_iff p t).mpr hreadable.repeats⟩

end AdguardAdmin.Ipvs
