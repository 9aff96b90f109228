import AdguardAdmin.IpvsStatus
/-!
# Whether a backend is up

A backend is up when every service of the VIP has it with weight.  The agent's entries say
so of backends that all of these services have, or none of them.

* `readRows_eq` — when the rows that are read are the kernel's;
* `status_right_iff` — when the entries say what the kernel has.
-/

namespace AdguardAdmin.Ipvs

open GoText IpLiterals CursorReader Upserts
open Keepalived (Backend IpvsSpec)

/-! ## What the kernel has -/

/-- The services of the spec's VIP, each with its destinations. -/
def Table.ofVip (t : Table) (v : IpvsSpec) : List ((Proto × Endpoint) × List Dest) :=
  t.addressed.filter fun a => parseIP v.vip = some a.1.2.ip

/-- The backend's destinations in these services. -/
def Table.rowsOf (t : Table) (v : IpvsSpec) (b : Backend) : List Dest :=
  (t.ofVip v).flatMap fun a => a.2.filter fun r => IsServer b r.server

/-- What is programmed of a destination, apart from its counters. -/
def Dest.bare (d : Dest) : Endpoint × Nat := (d.server, d.weight)

/-- What is programmed, as a reader finds it: each service with its own destinations and
those behind it. -/
def Table.laid (t : Table) : List (Gathered (Proto × Endpoint) (Endpoint × Nat)) :=
  t.gathered.map fun g => ⟨g.key, g.own.map Dest.bare, g.behind.map Dest.bare⟩

/-- What the entry of a backend should say. -/
structure EntryRight (t : Table) (v : IpvsSpec) (b : Backend) (counters : Bool) (entry : Entry) :
    Prop where
  up : entry.up = true ↔ t.ofVip v ≠ [] ∧
    ∀ a ∈ t.ofVip v, ∃ r ∈ a.2, IsServer b r.server ∧ 0 < r.weight
  activeConns : entry.activeConns = ((t.rowsOf v b).map (·.counts.activeConns)).sum
  inactiveConns : entry.inactiveConns = ((t.rowsOf v b).map (·.counts.inactConns)).sum
  conns : entry.conns = num counters ((t.rowsOf v b).map (·.counts.conns)).sum
  inPkts : entry.inPkts = num counters ((t.rowsOf v b).map (·.counts.inPkts)).sum
  inBytes : entry.inBytes = num counters ((t.rowsOf v b).map (·.counts.inBytes)).sum
  cps : entry.cps = num counters ((t.rowsOf v b).map (·.counts.cps)).sum
  inPps : entry.inPps = num counters ((t.rowsOf v b).map (·.counts.inPps)).sum

/-- Each backend has its own entry, which says what the kernel has and what it would say
were there no other backend in the spec. -/
def StatusRight (t : Table) (v : IpvsSpec) (drained : String → Bool) (a : Answers) : Prop :=
  List.Forall₂ (fun b entry => EntryRight t v b (readIPVS a).counters entry ∧
      (ipvsStatus a drained { v with backends := [b] }).backends = [entry])
    v.backends (ipvsStatus a drained v).backends

/-! ## When the status is right -/

/-- The services of the VIP, with what is programmed in them. -/
def vipLaid (t : Table) (v : IpvsSpec) : List (Gathered (Proto × Endpoint) (Endpoint × Nat)) :=
  t.laid.filter fun g => parseIP v.vip = some g.key.2.ip

/-- What a backend's entry rests on. -/
structure Reported (p : NumericPrints) (t : Table) (v : IpvsSpec) (b : Backend) : Prop where
  written : ∀ g ∈ vipLaid t v, ∀ r ∈ g.own, IsServer b r.1 →
    p.host g.key.2.ip = v.vip ∧ p.host r.1.ip = b.address
  undisturbed : ∀ g ∈ t.laid, p.host g.key.2.ip = v.vip → ∀ r ∈ g.behind, p.name r.1 ≠ serverKey b
  whole : (∃ g ∈ vipLaid t v, ∃ r ∈ g.own, IsServer b r.1) →
    (∀ g ∈ vipLaid t v, ∀ r ∈ g.own, IsServer b r.1 → 0 < r.2) →
      ∀ g ∈ vipLaid t v, ∃ r ∈ g.own, IsServer b r.1
  own : (∀ g ∈ vipLaid t v, ∀ r ∈ g.own, ¬ IsServer b r.1) → (keeper v b).weight = b.weight

/-- Only what is laid out matters for what is reported. -/
theorem Reported.congr {p : NumericPrints} {t t' : Table} {v : IpvsSpec} {b : Backend}
    (hlaid : t'.laid = t.laid) (h : Reported p t v b) : Reported p t' v b := by
  have hvip : vipLaid t' v = vipLaid t v := by rw [vipLaid, hlaid, vipLaid]
  exact ⟨hvip ▸ h.written, hlaid ▸ h.undisturbed, hvip ▸ h.whole, hvip ▸ h.own⟩

section Right

variable (t : Table) (v : IpvsSpec) (b : Backend)

/-- The services of the VIP are the groups of rows with its address. -/
theorem ofVip_eq : t.ofVip v =
    (t.gathered.filter fun g => parseIP v.vip = some g.key.2.ip).map fun g => (g.key, g.own) := by
  rw [Table.ofVip, addressed_eq, List.filter_map]
  rfl

/-- The laid-out groups of the VIP are its services, with their rows and those of the marks behind
them. -/
theorem vipLaid_eq : vipLaid t v =
    (t.gathered.filter fun g => parseIP v.vip = some g.key.2.ip).map fun g =>
      ⟨g.key, g.own.map Dest.bare, g.behind.map Dest.bare⟩ := by
  rw [vipLaid, Table.laid, List.filter_map]
  rfl

/-- What is programmed for a backend, read off its rows. -/
theorem mem_rowsOf {r : Dest} : r ∈ t.rowsOf v b ↔
    ∃ g ∈ t.gathered, parseIP v.vip = some g.key.2.ip ∧ r ∈ g.own ∧ IsServer b r.server := by
  rw [Table.rowsOf, ofVip_eq]
  simp only [List.mem_flatMap, List.mem_map, List.mem_filter, decide_eq_true_eq]
  constructor
  · rintro ⟨_, ⟨g, ⟨hg, hvip⟩, rfl⟩, hr, hserver⟩
    exact ⟨g, hg, hvip, hr, hserver⟩
  · rintro ⟨g, hg, hvip, hr, hserver⟩
    exact ⟨_, ⟨g, ⟨hg, hvip⟩, rfl⟩, hr, hserver⟩

/-- The rows laid out under the VIP are those that were gathered. -/
theorem forall_vipLaid {P : (Proto × Endpoint) → Endpoint × Nat → Prop} :
    (∀ g ∈ vipLaid t v, ∀ r ∈ g.own, P g.key r) ↔
      ∀ g ∈ t.gathered, parseIP v.vip = some g.key.2.ip → ∀ r ∈ g.own, P g.key r.bare := by
  rw [vipLaid_eq]
  simp only [List.forall_mem_map, List.mem_filter, decide_eq_true_eq, and_imp]

/-- The rows of a backend are those of its server. -/
theorem forall_rows {P : Endpoint × Nat → Prop} :
    (∀ g ∈ vipLaid t v, ∀ r ∈ g.own, IsServer b r.1 → P r) ↔ ∀ r ∈ t.rowsOf v b, P r.bare := by
  rw [forall_vipLaid t v (P := fun _ r => IsServer b r.1 → P r)]
  simp only [mem_rowsOf]
  constructor
  · rintro h r ⟨g, hg, hvip, hr, hserver⟩
    exact h g hg hvip r hr hserver
  · intro h g hg hvip r hr hserver
    exact h r ⟨g, hg, hvip, hr, hserver⟩

/-- A backend has no rows where no service of the VIP has its server. -/
theorem rowsOf_eq_nil : t.rowsOf v b = [] ↔ ∀ g ∈ vipLaid t v, ∀ r ∈ g.own, ¬ IsServer b r.1 := by
  have hnone := forall_rows t v b (P := fun _ => False)
  rw [List.eq_nil_iff_forall_not_mem]
  exact hnone.symm

/-- Every service of the VIP has the backend. -/
theorem forall_present {P : Dest → Prop} :
    (∀ a ∈ t.ofVip v, ∃ r ∈ a.2, P r) ↔
      ∀ g ∈ t.gathered, parseIP v.vip = some g.key.2.ip → ∃ r ∈ g.own, P r := by
  rw [ofVip_eq]
  simp only [List.forall_mem_map, List.mem_filter, decide_eq_true_eq, and_imp]

/-- A server has a row in each laid-out group of the VIP exactly when it has one in each of its
services. -/
theorem forall_laid_present : (∀ g ∈ vipLaid t v, ∃ r ∈ g.own, IsServer b r.1) ↔
    ∀ a ∈ t.ofVip v, ∃ r ∈ a.2, IsServer b r.server := by
  rw [forall_present, vipLaid_eq]
  simp only [List.forall_mem_map, List.mem_filter, decide_eq_true_eq, and_imp]
  refine forall₃_congr fun g _ _ => ?_
  simp [Dest.bare]

end Right

/-! ### The rows that are read are the kernel's -/

section Agree

variable {p : NumericPrints} {t : Table} {v : IpvsSpec} {b : Backend}

/-- The last row under a name is in the later part, if that has one. -/
theorem lastNamed_append (k : String) (xs ys : List Dest) :
    lastNamed p.toPrints k (xs ++ ys) =
      (lastNamed p.toPrints k ys).or (lastNamed p.toPrints k xs) := by
  rw [lastNamed, List.filter_append, List.getLast?_append]
  rfl

/-- The last row under a name is one of the rows, and has that name. -/
theorem lastNamed_mem {k : String} {rows : List Dest} {r : Dest}
    (h : lastNamed p.toPrints k rows = some r) : r ∈ rows ∧ p.name r.server = k := by
  have hmem := List.mem_filter.mp (List.mem_of_getLast? h)
  exact ⟨hmem.1, by simpa using hmem.2⟩

/-- There is no last row under a name exactly when no row has it. -/
theorem lastNamed_eq_none {k : String} {rows : List Dest} :
    lastNamed p.toPrints k rows = none ↔ ∀ r ∈ rows, p.name r.server ≠ k := by
  simp [lastNamed]

/-- In its own rows a service has a name once. -/
theorem toList_lastNamed {own : List Dest} (hnodup : (own.map (·.server)).Nodup) (k : String) :
    (lastNamed p.toPrints k own).toList = own.filter (p.name ·.server = k) := by
  have hnames : own.filter (p.name ·.server = k) =
      (find (fun r : Dest => p.name r.server) k own).toList :=
    filter_key_eq (names_nodup p.toPrints hnodup) k
  unfold lastNamed
  rw [hnames]
  cases find (fun r : Dest => p.name r.server) k own <;> rfl

/-- Groups may be filtered before or after they are mapped. -/
theorem filterMap_filter_eq {α β : Type} {x y : α → Bool} {f : α → Option β} {h : α → List β}
    {gs : List α} (hsame : ∀ g ∈ gs, (if x g then (f g).toList else []) = if y g then h g else []) :
    (gs.filter x).filterMap f = (gs.filter y).flatMap h := by
  induction gs with
  | nil => rfl
  | cons g gs ih =>
      rw [List.forall_mem_cons] at hsame
      have hrest := ih hsame.2
      have hsplit : ((g :: gs).filter x).filterMap f =
          (if x g then (f g).toList else []) ++ (gs.filter x).filterMap f := by
        rw [List.filter_cons]
        split
        · rw [List.filterMap_cons]
          cases f g <;> rfl
        · rfl
      rw [hsplit, hsame.1, hrest, List.filter_cons]
      split
      · rfl
      · rfl

/-- Undisturbed rows that are written alike are those of the kernel. -/
theorem readRows_eq (hcanon : Canonical v) (hb : b ∈ v.backends)
    (hwritten : ∀ g ∈ t.gathered, parseIP v.vip = some g.key.2.ip → ∀ r ∈ g.own,
      IsServer b r.server → p.host g.key.2.ip = v.vip ∧ p.host r.server.ip = b.address)
    (hundisturbed : ∀ g ∈ t.gathered, p.host g.key.2.ip = v.vip → ∀ r ∈ g.behind,
      p.name r.server ≠ serverKey b) :
    readRows p t v.vip (serverKey b) = t.rowsOf v b := by
  rw [readRows, Table.rowsOf, ofVip_eq, List.flatMap_map]
  refine filterMap_filter_eq fun g hg => ?_
  by_cases hhost : p.host g.key.2.ip = v.vip
  · have hvip := parseIP_of_host p hcanon hhost
    have hbehind := lastNamed_eq_none.mpr (hundisturbed g hg hhost)
    have hown : g.own.filter (p.name ·.server = serverKey b) =
        g.own.filter (IsServer b ·.server) := by
      refine List.filter_congr fun r hr => ?_
      rw [decide_eq_decide, name_eq_iff p hcanon hb]
      exact ⟨fun h => h.1, fun h => ⟨h, (hwritten g hg hvip r hr h).2⟩⟩
    rw [if_pos (by simpa using hhost), if_pos (by simpa using hvip), Gathered.all,
      lastNamed_append, hbehind, Option.none_or, toList_lastNamed (own_nodup hg), hown]
  · rw [if_neg (by simpa using hhost)]
    split
    · next hvip =>
        refine (List.filter_eq_nil_iff.mpr fun r hr hserver => ?_).symm
        exact hhost (hwritten g hg (by simpa using hvip) r hr (by simpa using hserver)).1
    · rfl

end Agree

/-! ### One table, counted in two ways -/

def Dest.counted (c : Counts) (d : Dest) : Dest := { d with counts := c }

def Name.counts (own marks : Counts) : Name → Counts
  | .address _ _ => own
  | .mark _ => marks

/-- The service with one number for all of its destinations. -/
def Service.recount (own marks : Counts) (svc : Service) : Service where
  name := svc.name
  dests := svc.dests.map (Dest.counted (svc.name.counts own marks))
  distinct := by
    rw [List.map_map]
    exact svc.distinct

def Table.recount (own marks : Counts) (t : Table) : Table where
  services := t.services.map (Service.recount own marks)
  distinct := by
    rw [List.map_map]
    exact t.distinct

/-- Other counts leave the groups as they are. -/
theorem gathered_recount (own marks : Counts) (t : Table) :
    (t.recount own marks).gathered = t.gathered.map fun g =>
      ⟨g.key, g.own.map (Dest.counted own), g.behind.map (Dest.counted marks)⟩ := by
  have hbehind : ∀ services : List Service,
      CursorReader.behind ((services.map (Service.recount own marks)).map Service.section) =
        (CursorReader.behind (services.map Service.section)).map (Dest.counted marks) := by
    intro services
    induction services with
    | nil => rfl
    | cons svc rest ih =>
        obtain ⟨name, dests, hdistinct⟩ := svc
        cases name with
        | address proto e => rfl
        | mark n =>
            have hsplit := congrArg (dests.map (Dest.counted marks) ++ ·) ih
            exact hsplit.trans List.map_append.symm
  have hservices : ∀ services : List Service,
      CursorReader.gathered ((services.map (Service.recount own marks)).map Service.section) =
        (CursorReader.gathered (services.map Service.section)).map fun g =>
          ⟨g.key, g.own.map (Dest.counted own), g.behind.map (Dest.counted marks)⟩ := by
    intro services
    induction services with
    | nil => rfl
    | cons svc rest ih =>
        obtain ⟨name, dests, hdistinct⟩ := svc
        cases name with
        | address proto e =>
            have hrest := hbehind rest
            simp only [List.map_cons, Service.section, Service.recount, CursorReader.gathered,
              Name.counts] at ih ⊢
            rw [ih, hrest]
        | mark n => exact ih
  exact hservices t.services

/-- Counting anew keeps the layout of a table. -/
theorem laid_recount (own marks : Counts) (t : Table) : (t.recount own marks).laid = t.laid := by
  rw [Table.laid, gathered_recount, List.map_map, Table.laid]
  refine List.map_congr_left fun g _ => ?_
  simp only [Function.comp_apply, List.map_map]
  rfl

/-- The backend's rows are counted as its services are. -/
theorem rowsOf_recount (own marks : Counts) (t : Table) (v : IpvsSpec) (b : Backend) :
    (t.recount own marks).rowsOf v b = (t.rowsOf v b).map (Dest.counted own) := by
  rw [Table.rowsOf, Table.rowsOf, ofVip_eq, ofVip_eq, gathered_recount, List.filter_map,
    List.map_map, List.flatMap_map, List.flatMap_map, List.map_flatMap]
  refine congrArg (fun f => List.flatMap f _) (funext fun g => ?_)
  simp only [Function.comp_apply, List.filter_map]
  rfl

def noCounts : Counts := ⟨0, 0, 0, 0, 0, 0, 0, 0, 0, 0, 0, 0⟩

def oneConn : Counts := { noCounts with activeConns := 1 }

/-! ### The status and the kernel -/

section Main

variable {p : NumericPrints} {t : Table} {v : IpvsSpec} {b : Backend} {a : Answers}

/-- The status is right exactly when each backend's entry is. -/
theorem statusRight_iff (hshown : ShownBy p.toPrints t a) (drained : String → Bool) :
    StatusRight t v drained a ↔ ∀ b ∈ v.backends,
      EntryRight t v b (readIPVS a).counters (entryOf (readIPVS a).counters drained (keeper v b)
          (readRows p t v.vip (serverKey b)) b) ∧
        (readRows p t v.vip (serverKey b) = [] → (keeper v b).weight = b.weight) := by
  unfold StatusRight
  rw [status_rows hshown, List.forall₂_map_right_iff, List.forall₂_same]
  refine forall₂_congr fun b _ => and_congr_right fun _ => ?_
  rw [status_rows hshown, List.map_singleton, keeper_single, List.singleton_inj]
  exact entryOf_eq_iff _ drained _ b _

/-- The rows of a backend in one service are one. -/
theorem server_unique {g : Gathered (Proto × Endpoint) Dest} (hg : g ∈ t.gathered) {r r' : Dest}
    (hr : r ∈ g.own) (hr' : r' ∈ g.own) (hserver : IsServer b r.server)
    (hserver' : IsServer b r'.server) : r = r' := by
  refine List.inj_on_of_nodup_map (own_nodup hg) hr hr' ?_
  obtain ⟨hip, hport⟩ := hserver
  obtain ⟨hip', hport'⟩ := hserver'
  have hsameIp : r.server.ip = r'.server.ip := Option.some.inj (hip.symm.trans hip')
  have hsamePort : r.server.port = r'.server.port := by
    apply Fin.ext
    exact_mod_cast hport.symm.trans hport'
  cases hs : r.server
  cases hs' : r'.server
  simp_all

/-- Rows that all have weight make a backend up, where no service is without one. -/
theorem up_iff (hwhole : (∃ r, r ∈ t.rowsOf v b) → (∀ r ∈ t.rowsOf v b, 0 < r.weight) →
      ∀ a ∈ t.ofVip v, ∃ r ∈ a.2, IsServer b r.server) :
    (t.rowsOf v b ≠ [] ∧ ∀ r ∈ t.rowsOf v b, 0 < r.weight) ↔
      t.ofVip v ≠ [] ∧ ∀ a ∈ t.ofVip v, ∃ r ∈ a.2, IsServer b r.server ∧ 0 < r.weight := by
  constructor
  · rintro ⟨hne, hweights⟩
    obtain ⟨row, hrow⟩ := List.exists_mem_of_ne_nil _ hne
    have hpresent := (forall_present t v).mp (hwhole ⟨row, hrow⟩ hweights)
    obtain ⟨g, hg, hvip, hmem, -⟩ := (mem_rowsOf t v b).mp hrow
    refine ⟨?_, (forall_present t v).mpr fun g' hg' hvip' => ?_⟩
    · rw [ofVip_eq]
      exact List.ne_nil_of_mem (List.mem_map_of_mem (List.mem_filter.mpr ⟨hg, by simpa using hvip⟩))
    · obtain ⟨r, hr, hserver⟩ := hpresent g' hg' hvip'
      exact ⟨r, hr, hserver, hweights r ((mem_rowsOf t v b).mpr ⟨g', hg', hvip', hr, hserver⟩)⟩
  · rintro ⟨hne, hall⟩
    have hpresent := (forall_present t v).mp hall
    constructor
    · obtain ⟨a, ha⟩ := List.exists_mem_of_ne_nil _ hne
      rw [ofVip_eq, List.mem_map] at ha
      obtain ⟨g, hg, -⟩ := ha
      obtain ⟨hmem, hvip⟩ := List.mem_filter.mp hg
      obtain ⟨r, hr, hserver, -⟩ := hpresent g hmem (by simpa using hvip)
      exact List.ne_nil_of_mem ((mem_rowsOf t v b).mpr ⟨g, hmem, by simpa using hvip, hr, hserver⟩)
    · intro r hr
      obtain ⟨g, hg, hvip, hmem, hserver⟩ := (mem_rowsOf t v b).mp hr
      obtain ⟨r', hr', hserver', hpos⟩ := hpresent g hg hvip
      rwa [server_unique hg hmem hr' hserver hserver']

/-- A backend without a row in some service, all of whose rows have weight, is up for the
agent and down for the kernel. -/
theorem whole_of_up_iff
    (hup : (t.rowsOf v b ≠ [] ∧ ∀ r ∈ t.rowsOf v b, 0 < r.weight) ↔
      t.ofVip v ≠ [] ∧ ∀ a ∈ t.ofVip v, ∃ r ∈ a.2, IsServer b r.server ∧ 0 < r.weight) :
    (∃ r, r ∈ t.rowsOf v b) → (∀ r ∈ t.rowsOf v b, 0 < r.weight) →
      ∀ a ∈ t.ofVip v, ∃ r ∈ a.2, IsServer b r.server := by
  rintro ⟨row, hrow⟩ hweights a ha
  obtain ⟨r, hr, hserver, -⟩ := (hup.mp ⟨List.ne_nil_of_mem hrow, hweights⟩).2 a ha
  exact ⟨r, hr, hserver⟩

/-- A row that is read under the backend's name shows how the addresses are written. -/
theorem written_of_read (hcanon : Canonical v) (hb : b ∈ v.backends)
    (hread : readRows p t v.vip (serverKey b) ≠ []) {k : Proto × Endpoint} {e : Endpoint}
    (hvip : parseIP v.vip = some k.2.ip) (hserver : IsServer b e) :
    p.host k.2.ip = v.vip ∧ p.host e.ip = b.address := by
  obtain ⟨row, hrow⟩ := List.exists_mem_of_ne_nil _ hread
  obtain ⟨g, hg, hlast⟩ := List.mem_filterMap.mp hrow
  have hhost : p.host g.key.2.ip = v.vip := by simpa using (List.mem_filter.mp hg).2
  have hsame : k.2.ip = g.key.2.ip :=
    Option.some.inj (hvip.symm.trans (parseIP_of_host p hcanon hhost))
  obtain ⟨hrowServer, hrowHost⟩ := (name_eq_iff p hcanon hb row.server).mp (lastNamed_mem hlast).2
  have hip : e.ip = row.server.ip := Option.some.inj (hserver.1.symm.trans hrowServer.1)
  exact ⟨hsame ▸ hhost, hip ▸ hrowHost⟩

/-- Names are written alike in the layout exactly when they are in the table. -/
theorem written_iff : (∀ g ∈ vipLaid t v, ∀ r ∈ g.own, IsServer b r.1 →
      p.host g.key.2.ip = v.vip ∧ p.host r.1.ip = b.address) ↔
    ∀ g ∈ t.gathered, parseIP v.vip = some g.key.2.ip → ∀ r ∈ g.own, IsServer b r.server →
      p.host g.key.2.ip = v.vip ∧ p.host r.server.ip = b.address :=
  forall_vipLaid t v (P := fun k r => IsServer b r.1 →
    p.host k.2.ip = v.vip ∧ p.host r.1.ip = b.address)

/-- A backend is undisturbed in the layout exactly when it is so in the gathered rows. -/
theorem undisturbed_iff : (∀ g ∈ t.laid, p.host g.key.2.ip = v.vip → ∀ r ∈ g.behind,
      p.name r.1 ≠ serverKey b) ↔
    ∀ g ∈ t.gathered, p.host g.key.2.ip = v.vip → ∀ r ∈ g.behind, p.name r.server ≠ serverKey b := by
  rw [Table.laid]
  simp only [List.forall_mem_map]
  rfl

/-- That a backend whose weights are above zero is in all services of the VIP shows in the layout.
-/
theorem whole_iff : ((∃ g ∈ vipLaid t v, ∃ r ∈ g.own, IsServer b r.1) →
      (∀ g ∈ vipLaid t v, ∀ r ∈ g.own, IsServer b r.1 → 0 < r.2) →
        ∀ g ∈ vipLaid t v, ∃ r ∈ g.own, IsServer b r.1) ↔
    ((∃ r, r ∈ t.rowsOf v b) → (∀ r ∈ t.rowsOf v b, 0 < r.weight) →
      ∀ a ∈ t.ofVip v, ∃ r ∈ a.2, IsServer b r.server) := by
  have hsome : (∃ g ∈ vipLaid t v, ∃ r ∈ g.own, IsServer b r.1) ↔ ∃ r, r ∈ t.rowsOf v b := by
    have hnone : (¬ ∃ r, r ∈ t.rowsOf v b) ↔ ∀ g ∈ vipLaid t v, ∀ r ∈ g.own, ¬ IsServer b r.1 := by
      rw [not_exists, ← List.eq_nil_iff_forall_not_mem, rowsOf_eq_nil]
    rw [← not_iff_not, hnone]
    push Not
    rfl
  rw [hsome, forall_rows t v b (P := fun r => 0 < r.2), forall_laid_present]
  rfl

/-- Where rows behind a service are about others, the agent reads the kernel's rows. -/
theorem Reported.rows (h : Reported p t v b) (hcanon : Canonical v) (hb : b ∈ v.backends) :
    readRows p t v.vip (serverKey b) = t.rowsOf v b :=
  readRows_eq hcanon hb (written_iff.mp h.written) (undisturbed_iff.mp h.undisturbed)

/-- What an entry is right about, once its rows are the kernel's. -/
theorem entryRight_iff (counters : Bool) (drained : String → Bool) (first : Backend)
    (rows : List Dest) (hrows : rows = t.rowsOf v b) :
    EntryRight t v b counters (entryOf counters drained first rows b) ↔
      ((t.rowsOf v b ≠ [] ∧ ∀ r ∈ t.rowsOf v b, 0 < r.weight) ↔
        t.ofVip v ≠ [] ∧ ∀ a ∈ t.ofVip v, ∃ r ∈ a.2, IsServer b r.server ∧ 0 < r.weight) := by
  subst hrows
  constructor
  · intro h
    exact (entryOf_up counters drained first b _).symm.trans h.up
  · intro hup
    exact ⟨(entryOf_up counters drained first b _).trans hup, by simp, by simp, by simp, by simp,
      by simp, by simp, by simp⟩

/-- A backend that is reported right has the rows of the kernel. -/
theorem Reported.right (h : Reported p t v b) (hcanon : Canonical v) (hb : b ∈ v.backends)
    (counters : Bool) (drained : String → Bool) :
    EntryRight t v b counters (entryOf counters drained (keeper v b)
        (readRows p t v.vip (serverKey b)) b) ∧
      (readRows p t v.vip (serverKey b) = [] → (keeper v b).weight = b.weight) := by
  have hrows := h.rows hcanon hb
  refine ⟨(entryRight_iff counters drained (keeper v b) _ hrows).mpr ?_, fun hempty => ?_⟩
  · exact up_iff (whole_iff.mp h.whole)
  · exact h.own ((rowsOf_eq_nil t v b).mp (hrows ▸ hempty))

/-- All three listings of a table. -/
def listings (p : Prints) (t : Table) : Answers :=
  ⟨true, .ok (p.listing .plain t), some (p.listing .stats t), some (p.listing .rate t), none⟩

/-- With one count in each row the sum is a multiple. -/
theorem sum_activeConns (c : Counts) (rows : List Dest) :
    ((rows.map (Dest.counted c)).map (·.counts.activeConns)).sum =
      rows.length * c.activeConns := by
  rw [List.map_map]
  have hconst : ((fun r : Dest => r.counts.activeConns) ∘ Dest.counted c) =
      fun _ => c.activeConns := rfl
  rw [hconst, List.map_const', List.sum_replicate_nat]

/-- A status that is right under all counts is reported right for each backend. -/
theorem reported_of_right (drained : String → Bool) (hcanon : Canonical v)
    (hright : ∀ t' : Table, t'.laid = t.laid → ∀ a, ShownBy p.toPrints t' a →
      StatusRight t' v drained a) (hb : b ∈ v.backends) : Reported p t v b := by
  have hentry : ∀ t' : Table, t'.laid = t.laid → EntryRight t' v b true
      (entryOf true drained (keeper v b) (readRows p t' v.vip (serverKey b)) b) ∧
        (readRows p t' v.vip (serverKey b) = [] → (keeper v b).weight = b.weight) := by
    intro t' hlaid
    have hshown : ShownBy p.toPrints t' (listings p.toPrints t') := .inl ⟨rfl, rfl, rfl, rfl⟩
    exact (statusRight_iff hshown drained).mp (hright t' hlaid _ hshown) b hb
  have hwritten : ∀ g ∈ vipLaid t v, ∀ r ∈ g.own, IsServer b r.1 →
      p.host g.key.2.ip = v.vip ∧ p.host r.1.ip = b.address := by
    -- counted by one, a row of the backend makes a sum that takes a row to be read
    refine written_iff.mpr fun g hg hvip r hr hserver => ?_
    have hsum := (hentry _ (laid_recount oneConn noCounts t)).1.activeConns
    rw [entryOf_activeConns, rowsOf_recount, sum_activeConns] at hsum
    have hrow : r ∈ t.rowsOf v b := (mem_rowsOf t v b).mpr ⟨g, hg, hvip, hr, hserver⟩
    have hpos : 0 < (t.rowsOf v b).length := List.length_pos_of_mem hrow
    have hread : readRows p (t.recount oneConn noCounts) v.vip (serverKey b) ≠ [] := by
      intro hempty
      rw [hempty] at hsum
      have hone : oneConn.activeConns = 1 := rfl
      rw [hone, Nat.mul_one] at hsum
      exact absurd hsum (Nat.ne_of_lt hpos)
    exact written_of_read hcanon hb hread hvip hserver
  have hundisturbed : ∀ g ∈ t.laid, p.host g.key.2.ip = v.vip → ∀ r ∈ g.behind,
      p.name r.1 ≠ serverKey b := by
    -- counted by one, a row of a firewall mark makes a sum where the backend has none
    refine undisturbed_iff.mpr fun g hg hhost r hr hname => ?_
    have hsum := (hentry _ (laid_recount noCounts oneConn t)).1.activeConns
    rw [entryOf_activeConns, rowsOf_recount, sum_activeConns] at hsum
    have hzero : noCounts.activeConns = 0 := rfl
    rw [hzero, Nat.mul_zero, List.sum_eq_zero_iff_forall_eq_nat] at hsum
    have hfound : (lastNamed p.toPrints (serverKey b) (g.behind.map (Dest.counted oneConn))) ≠
        none := fun hnone => lastNamed_eq_none.mp hnone _ (List.mem_map_of_mem hr) hname
    obtain ⟨last, hlast⟩ := Option.ne_none_iff_exists'.mp hfound
    have hrow : last ∈ readRows p (t.recount noCounts oneConn) v.vip (serverKey b) := by
      rw [readRows, gathered_recount, List.filter_map]
      refine List.mem_filterMap.mpr ⟨_, List.mem_map_of_mem (List.mem_filter.mpr
        ⟨hg, by simpa using hhost⟩), ?_⟩
      rw [Gathered.all, lastNamed_append, hlast, Option.some_or]
    obtain ⟨d, -, rfl⟩ := List.mem_map.mp (lastNamed_mem hlast).1
    have hcount : (1 : Nat) = 0 := hsum _ (List.mem_map_of_mem hrow)
    exact absurd hcount (by decide)
  have hrows := readRows_eq hcanon hb (written_iff.mp hwritten) (undisturbed_iff.mp hundisturbed)
  obtain ⟨hkernel, hweight⟩ := hentry t rfl
  refine ⟨hwritten, hundisturbed, whole_iff.mpr ?_, fun hnone => ?_⟩
  · exact whole_of_up_iff ((entryRight_iff true drained (keeper v b) _ hrows).mp hkernel)
  · exact hweight (hrows.trans ((rowsOf_eq_nil t v b).mpr hnone))

/-- **The status says what the kernel holds exactly for backends whose services are whole.**
For every accepted spec and every table, whatever its counters: each backend is up when
every service of the VIP has it with weight and there is one, its counters are the sums over
them, and its entry is the one it has by itself, if and only if its rows are written as the
agent writes its address, no firewall mark lists it behind the VIP, it has a row without
weight or rows in all of the services or in none, and, where it has none, it has the weight
of the last backend with its address. -/
theorem status_right_iff (p : NumericPrints) (drained : String → Bool) {raw : Json Int}
    {spec : Keepalived.Spec} {v : IpvsSpec} (hspec : Keepalived.decode raw = .ok spec)
    (hv : spec.ipvs = some v) (t : Table) :
    (∀ t' : Table, t'.laid = t.laid → ∀ a, ShownBy p.toPrints t' a → StatusRight t' v drained a) ↔
      ∀ b ∈ v.backends, Reported p t v b := by
  rcases decode_canonical hspec hv with hcanon | hempty
  · constructor
    · exact fun hright b hb => reported_of_right drained hcanon hright hb
    · intro hreported t' hlaid a hshown
      refine (statusRight_iff hshown drained).mpr fun b hb => ?_
      exact ((hreported b hb).congr hlaid).right hcanon hb _ drained
  · constructor
    · intro _ b hb
      rw [hempty] at hb
      exact absurd hb List.not_mem_nil
    · intro _ t' _ a hshown
      refine (statusRight_iff hshown drained).mpr fun b hb => ?_
      rw [hempty] at hb
      exact absurd hb List.not_mem_nil

end Main

/-! ### Two tables -/

def plainNumeric : NumericPrints where
  toPrints := plainPrints
  host := ipString
  name_eq := fun _ => rfl
  host_parses := parseAddr_ipString

/-- A director with one backend. -/
def directorJson : Json Int :=
  .obj [("enabled", .bool true), ("vip", .str "10.0.0.53/24"), ("interface", .str "eth0"),
    ("router_id", .num 53), ("priority", .num 100), ("auth_pass", .str "secret"),
    ("peers", .strs ["10.0.0.12"]), ("src_ip", .str "10.0.0.11"), ("check_dns", .str ""),
    ("ipvs", .obj [("enabled", .bool true), ("vip", .str "10.0.0.53"), ("ports", .arr [.num 53]),
      ("protocols", .strs ["udp", "tcp"]), ("algo", .str "wlc"),
      ("backends", .arr [.obj [("name", .str "dns-a"), ("address", .str "10.0.0.11"),
        ("port", .num 53), ("weight", .num 1)]])])]

def directorBackend : Backend := ⟨"dns-a", "10.0.0.11", 53, 1⟩

def directorIpvs : IpvsSpec :=
  ⟨true, "10.0.0.53", [53], ["udp", "tcp"], "wlc", [directorBackend], ⟨2, 2, 2⟩⟩

def director : Keepalived.Spec :=
  ⟨true, "10.0.0.53/24", "eth0", 53, 100, "secret", ["10.0.0.12"], "10.0.0.11", "",
    some directorIpvs⟩

theorem decode_director : Keepalived.decode directorJson = .ok director := by decide +kernel

/-- The services of the director's VIP; that for UDP has these destinations. -/
def directorTable (udp : List Dest) (hdistinct : (udp.map (·.server)).Nodup) : Table where
  services := [
    ⟨.address .tcp (endpoint 10 0 0 53 53), [idleDest (endpoint 10 0 0 11 53) 1], oneDest_distinct⟩,
    ⟨.address .udp (endpoint 10 0 0 53 53), udp, hdistinct⟩]
  distinct := by simp

def wholeTable : Table := directorTable [idleDest (endpoint 10 0 0 11 53) 1] oneDest_distinct

def halfTable : Table := directorTable [] (by simp)

/-- A backend in both services is reported as it is. -/
theorem whole_table_right : StatusRight wholeTable directorIpvs (fun _ => false)
    (listings plainPrints wholeTable) := by
  have hshown : ShownBy plainPrints wholeTable (listings plainPrints wholeTable) :=
    .inl ⟨rfl, rfl, rfl, rfl⟩
  refine (status_right_iff plainNumeric (fun _ => false) decode_director rfl wholeTable).mpr ?_
    wholeTable rfl _ hshown
  rw [directorIpvs, List.forall_mem_singleton]
  exact ⟨by decide +kernel, by decide +kernel, by decide +kernel, by decide +kernel⟩

/-- A backend that UDP does not have is reported up. -/
theorem half_present_up : ¬ ∀ (p : NumericPrints) (drained : String → Bool) (raw : Json Int)
    (spec : Keepalived.Spec) (v : IpvsSpec), Keepalived.decode raw = .ok spec →
      spec.ipvs = some v → ∀ (t : Table) (a : Answers), ShownBy p.toPrints t a →
        StatusRight t v drained a := by
  intro hclaim
  have hright := hclaim plainNumeric (fun _ => false) directorJson director directorIpvs
    decode_director rfl
  have hcanon : Canonical directorIpvs :=
    (decode_canonical decode_director rfl).resolve_right (by decide)
  have hreported : Reported plainNumeric halfTable directorIpvs directorBackend :=
    reported_of_right (fun _ => false) hcanon (fun t' _ a hshown => hright t' a hshown)
      List.mem_cons_self
  have hudp := hreported.whole (by decide +kernel) (by decide +kernel)
  revert hudp
  decide +kernel

end AdguardAdmin.Ipvs
