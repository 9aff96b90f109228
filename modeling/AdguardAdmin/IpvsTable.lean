import AdguardAdmin.IpvsListing
/-!
# The kernel's IPVS table and its prints

The services of the kernel's balancer, and the rows in which `ipvsadm` and
`/proc/net/ip_vs` print them.  How they write an address is theirs; of the names `ipvsadm`
gives it is only used that they tell addresses apart.

* `scan_rows` — a print is read section by section;
* `readListings_services` — what the three listings of a table are merged to.
-/

namespace AdguardAdmin.Ipvs

open GoText IpLiterals CursorReader Upserts

/-! ## The kernel's table -/

structure Endpoint where
  ip : Ip
  port : Fin 65536
  deriving DecidableEq, Repr

/-- What the kernel counts for a destination. -/
structure Counts where
  activeConns : Nat
  inactConns : Nat
  conns : Nat
  inPkts : Nat
  outPkts : Nat
  inBytes : Nat
  outBytes : Nat
  cps : Nat
  inPps : Nat
  outPps : Nat
  inBps : Nat
  outBps : Nat
  deriving DecidableEq, Repr

structure Dest where
  server : Endpoint
  weight : Nat
  counts : Counts
  deriving DecidableEq, Repr

inductive Proto where
  | tcp
  | udp
  | sctp
  deriving DecidableEq, Repr

/-- A service is found by its address, or by the mark a firewall puts on a packet. -/
inductive Name where
  | address (proto : Proto) (server : Endpoint)
  | mark (n : Nat)
  deriving DecidableEq, Repr

structure Service where
  name : Name
  dests : List Dest
  distinct : (dests.map (·.server)).Nodup

structure Table where
  services : List Service
  distinct : (services.map (·.name)).Nodup

/-! ## Its prints -/

def Proto.text : Proto → String
  | .tcp => "TCP"
  | .udp => "UDP"
  | .sctp => "SCTP"

/-- What a print writes beside the columns the agent reads.  A firewall mark is in decimal in
the listings of `ipvsadm` and in hexadecimal in the kernel's file. -/
structure Layout where
  title : List (List String)
  mark : Nat → String
  columns : Service → List String
  forward : Dest → String

/-- The columns of a destination. -/
def destColumns (forward : Dest → String) (kind : Kind) (d : Dest) : List String :=
  match kind with
  | .plain => [forward d, toString d.weight, toString d.counts.activeConns,
      toString d.counts.inactConns]
  | .stats => [toString d.counts.conns, toString d.counts.inPkts, toString d.counts.outPkts,
      toString d.counts.inBytes, toString d.counts.outBytes]
  | .rate => [toString d.counts.cps, toString d.counts.inPps, toString d.counts.outPps,
      toString d.counts.inBps, toString d.counts.outBps]

def headRow (name : Endpoint → String) (layout : Layout) (svc : Service) : List String :=
  match svc.name with
  | .address proto e => proto.text :: name e :: layout.columns svc
  | .mark n => "FWM" :: layout.mark n :: layout.columns svc

/-- The rows of a table with its title, one block of rows for each service. -/
def printedRows (name : Endpoint → String) (layout : Layout) (kind : Kind) (t : Table) :
    List (List String) :=
  layout.title ++ t.services.flatMap fun svc =>
    headRow name layout svc ::
      svc.dests.map fun d => "->" :: name d.server :: destColumns layout.forward kind d

/-- The prints of `ipvsadm -Ln` and of the kernel. -/
structure Prints where
  name : Endpoint → String
  hexName : Endpoint → String
  listed : Kind → Layout
  proc : Layout
  listing : Kind → Table → String
  procText : Table → String
  name_injective : name.Injective
  name_ne : ∀ e, name e ≠ "RemoteAddress:Port"
  listed_title : ∀ kind, ∀ row ∈ (listed kind).title, isProtoLine row = false
  proc_title : ∀ row ∈ proc.title, isProtoLine row = false
  rows_listing : ∀ kind t, (rowsOf (listing kind t)).filter (· ≠ []) =
    printedRows name (listed kind) kind t
  rows_procText : ∀ t, (rowsOf (procText t)).filter (· ≠ []) = printedRows hexName proc .plain t

/-! ## What the readers make of them -/

def Service.section (svc : Service) : Section (Proto × Endpoint) Dest where
  head :=
    match svc.name with
    | .address proto e => .opens (proto, e)
    | .mark _ => .unknown
  body := svc.dests

def Table.sections (t : Table) : List (Section (Proto × Endpoint) Dest) :=
  t.services.map Service.section

/-- The services with an address, each with its own rows and those a reader finds behind
them under the heads of firewall marks. -/
def Table.gathered (t : Table) : List (Gathered (Proto × Endpoint) Dest) :=
  CursorReader.gathered t.sections

/-- A service under the name a reader knows its address by. -/
def label (known : Endpoint → Option String) (k : Proto × Endpoint) : Option (String × String) :=
  (known k.2).map fun addr => (k.1.text, addr)

/-- What a row says of its destination. -/
def Dest.fill (kind : Kind) (r : Dest) (d : IpvsDest) : IpvsDest :=
  match kind with
  | .plain => { d with
      weight := r.weight
      seenWeight := true
      activeConns := r.counts.activeConns
      inactConns := r.counts.inactConns }
  | .stats => { d with
      conns := r.counts.conns
      inPkts := r.counts.inPkts
      inBytes := r.counts.inBytes }
  | .rate => { d with cps := r.counts.cps, inPps := r.counts.inPps }

def Dest.change (name : Endpoint → Option String) (kind : Kind) (r : Dest) :
    Option (Change String IpvsDest) :=
  (name r.server).map fun addr => (addr, r.fill kind)

/-- A number is read back from its decimal print. -/
@[simp] theorem bigNum_repr (n : Nat) : bigNum n.repr = n := by
  have hchars : n.repr.toList = Nat.toDigits 10 n := String.toList_ofList
  have hunit : ∀ c, (decDigit? c).isSome = false → (Nat.toDigits 10 n).getLast? ≠ some c := by
    intro c hc hlast
    exact not_mem_toDigits hc n (List.mem_of_getLast? hlast)
  unfold bigNum
  rw [hchars]
  split
  next digits mult heq =>
    split at heq
    · next hlast => exact absurd hlast (hunit 'K' (by decide))
    · next hlast => exact absurd hlast (hunit 'M' (by decide))
    · next hlast => exact absurd hlast (hunit 'G' (by decide))
    · obtain ⟨rfl, rfl⟩ := Prod.mk.inj heq
      simp [decimal?_toDigits]

@[simp] theorem fill_destColumns (forward : Dest → String) (kind : Kind) (r : Dest) :
    fill kind (destColumns forward kind r) = r.fill kind := by
  funext d
  cases kind <;> simp [fill, destColumns, Dest.fill]

/-- Rows before the first service are passed over. -/
theorem scan_title {rows : List (Row (String × String) String IpvsDest)}
    (htitle : ∀ row ∈ rows, ∀ k, row ≠ .opens k) (into : List IpvsService) :
    scan IpvsDest.addr newDest ⟨into, none⟩ rows = ⟨into, none⟩ := by
  induction rows with
  | nil => rfl
  | cons row rows ih =>
      rw [List.forall_mem_cons] at htitle
      cases row with
      | opens k => exact absurd rfl (htitle.1 k)
      | closes => exact ih htitle.2
      | entry change => exact ih htitle.2
      | other => exact ih htitle.2

/-- Empty lines are passed over. -/
theorem scan_filter {f : List String → Row (String × String) String IpvsDest}
    (hempty : f [] = .other) (s : State (String × String) IpvsDest) (rows : List (List String)) :
    scan IpvsDest.addr newDest s ((rows.filter (· ≠ [])).map f) =
      scan IpvsDest.addr newDest s (rows.map f) := by
  induction rows generalizing s with
  | nil => rfl
  | cons row rows ih =>
      by_cases hrow : row = []
      · subst hrow
        have hskip : step IpvsDest.addr newDest s (f []) = s := by rw [hempty]; rfl
        calc scan IpvsDest.addr newDest s ((([] :: rows).filter (· ≠ [])).map f)
            = scan IpvsDest.addr newDest s ((rows.filter (· ≠ [])).map f) := rfl
          _ = scan IpvsDest.addr newDest s (rows.map f) := ih s
          _ = scan IpvsDest.addr newDest s (([] :: rows).map f) := by
              rw [List.map_cons, scan, scan, List.foldl_cons, hskip]
      · rw [List.filter_cons_of_pos (by simpa using hrow)]
        exact ih _

/-- How a reader takes the rows of a print. -/
structure Takes (f : List String → Row (String × String) String IpvsDest) (kind : Kind)
    (name : Endpoint → String) (layout : Layout) (known : Endpoint → Option String) : Prop where
  empty : f [] = .other
  title : ∀ row ∈ layout.title, ∀ k, f row ≠ .opens k
  head : ∀ svc, f (headRow name layout svc) = (svc.section.rekey (label known)).head.row
  dest : ∀ r, f ("->" :: name r.server :: destColumns layout.forward kind r) =
    entryRow (Dest.change known kind) r

variable {f : List String → Row (String × String) String IpvsDest} {kind : Kind}
  {name : Endpoint → String} {layout : Layout} {known : Endpoint → Option String}

/-- The rows of a print are those of its sections, behind the title. -/
theorem Takes.map_rows (h : Takes f kind name layout known) (t : Table) :
    (printedRows name layout kind t).map f =
      layout.title.map f ++
        (t.sections.map (Section.rekey (label known))).flatMap
          (Section.rows (Dest.change known kind)) := by
  unfold printedRows Table.sections
  rw [List.map_append, List.map_flatMap, List.flatMap_map, List.flatMap_map]
  congr 1
  refine congrArg (fun g => t.services.flatMap g) (funext fun svc => ?_)
  rw [List.map_cons, h.head, List.map_map, Section.rows]
  congr 1
  exact List.map_congr_left fun r _ => h.dest r

/-- **A print is read section by section.** -/
theorem Takes.scan_rows (h : Takes f kind name layout known) {t : Table} {text : String}
    (hrows : (rowsOf text).filter (· ≠ []) = printedRows name layout kind t)
    (into : List IpvsService) :
    scan IpvsDest.addr newDest ⟨into, none⟩ ((rowsOf text).map f) =
      scan IpvsDest.addr newDest ⟨into, none⟩
        ((t.sections.map (Section.rekey (label known))).flatMap
          (Section.rows (Dest.change known kind))) := by
  have htitle : ∀ row ∈ layout.title.map f, ∀ k, row ≠ .opens k := by
    intro row hrow
    obtain ⟨fields, hfields, rfl⟩ := List.mem_map.mp hrow
    exact h.title fields hfields
  rw [← scan_filter h.empty, hrows, h.map_rows, CursorReader.scan, List.foldl_append]
  exact congrArg (fun s => List.foldl _ s _) (scan_title htitle into)

variable (p : Prints)

/-- The listings are taken by names. -/
theorem takes_listRow (kind : Kind) :
    Takes (listRow kind) kind p.name (p.listed kind) (fun e => some (p.name e)) where
  empty := rfl
  title := by
    intro row hrow k
    have hplain : isProtoLine row = false := p.listed_title kind row hrow
    unfold listRow
    split
    · rw [hplain]
      simp only [Bool.false_eq_true, if_false]
      split <;> simp
    · simp
  head := by
    intro svc
    unfold headRow Service.section Section.rekey label
    cases svc.name with
    | address proto e => cases proto <;> rfl
    | mark n => rfl
  dest := by
    intro r
    have hname : p.name r.server ≠ "RemoteAddress:Port" := p.name_ne r.server
    simp [listRow, isProtoLine, hname, entryRow, Dest.change]

/-- The kernel's file is taken by the names its packed addresses decode to. -/
theorem takes_procRow :
    Takes procRow .plain p.hexName p.proc (fun e => decodeProcAddr (p.hexName e)) where
  empty := rfl
  title := by
    intro row hrow k
    have hplain : isProtoLine row = false := p.proc_title row hrow
    unfold procRow
    split
    · rw [hplain]
      simp only [Bool.false_eq_true, if_false]
      split <;> simp
    · simp
  head := by
    intro svc
    unfold headRow Service.section Section.rekey label
    cases svc.name with
    | address proto e =>
        cases hname : decodeProcAddr (p.hexName e) <;> cases proto <;>
          simp [procRow, isProtoLine, Proto.text, Head.row, hname]
    | mark n => simp [procRow, isProtoLine, Head.row]
  dest := by
    intro r
    cases hname : decodeProcAddr (p.hexName r.server) with
    | none => simp [procRow, isProtoLine, entryRow, Dest.change, hname, destColumns]
    | some addr =>
        have hfill : fill .plain (destColumns p.proc.forward .plain r) = r.fill .plain :=
          fill_destColumns p.proc.forward .plain r
        unfold destColumns at hfill
        simp [procRow, isProtoLine, entryRow, Dest.change, hname, destColumns]
        exact hfill

/-! ## What the prints of a table are read as -/

/-- The name a service is listed under. -/
def listKey (k : Proto × Endpoint) : String × String := (k.1.text, p.name k.2)

theorem proto_text_injective : Proto.text.Injective := by
  intro a b h
  cases a <;> cases b <;> simp_all [Proto.text]

/-- Services are listed under different keys. -/
theorem listKey_injective : (listKey p).Injective := by
  intro a b h
  obtain ⟨hproto, hname⟩ := Prod.mk.inj h
  exact Prod.ext (proto_text_injective hproto) (p.name_injective hname)

/-- The keys of the services with an address are distinct. -/
theorem gathered_nodup (t : Table) : (t.gathered.map (·.key)).Nodup := by
  have hnames : ∀ services : List Service,
      ((CursorReader.gathered (services.map Service.section)).map fun g =>
        Name.address g.key.1 g.key.2).Sublist (services.map (·.name)) := by
    intro services
    induction services with
    | nil => exact List.Sublist.refl _
    | cons svc rest ih =>
        obtain ⟨name, dests, hdistinct⟩ := svc
        cases name with
        | address proto e => exact ih.cons_cons _
        | mark n => exact ih.cons _
  have hdistinct := t.distinct.sublist (hnames t.services)
  have hsplit : (t.gathered.map fun g => Name.address g.key.1 g.key.2) =
      (t.gathered.map (·.key)).map fun k => Name.address k.1 k.2 := by
    rw [List.map_map]
    rfl
  have hkeys : ((t.gathered.map (·.key)).map fun k => Name.address k.1 k.2).Nodup :=
    hsplit ▸ hdistinct
  exact hkeys.of_map _

theorem listKey_nodup (t : Table) : (t.gathered.map fun g => listKey p g.key).Nodup := by
  have hkeys := (gathered_nodup t).map (listKey_injective p)
  rwa [List.map_map] at hkeys

/-- The rows of a listing put into a service. -/
def put (kind : Kind) (rows : List Dest) (entries : List IpvsDest) : List IpvsDest :=
  upsertAll IpvsDest.addr newDest entries (rows.map fun r => (p.name r.server, r.fill kind))

/-- The services of a table, listed under their names. -/
def listed (entries : Gathered (Proto × Endpoint) Dest → List IpvsDest) (t : Table) :
    List IpvsService :=
  t.gathered.map fun g => ⟨listKey p g.key, entries g⟩

/-- The services that are gathered from a listing are those of the table. -/
theorem gathered_listed (t : Table) :
    CursorReader.gathered (t.sections.map (Section.rekey (label fun e => some (p.name e)))) =
      t.gathered.map fun g => ⟨listKey p g.key, g.own, g.behind⟩ := by
  rw [gathered_rekey, Table.gathered, ← List.filterMap_eq_map']
  rfl

/-- Each row changes the destination of its name. -/
theorem filterMap_change (kind : Kind) (rows : List Dest) :
    rows.filterMap (Dest.change (fun e => some (p.name e)) kind) =
      rows.map fun r => (p.name r.server, r.fill kind) := by
  rw [← List.filterMap_eq_map']
  rfl

/-- A listing is merged service by service. -/
theorem parseListing_services (kind : Kind) (t : Table) (into : List IpvsService) :
    (parseListing (p.listing kind t) kind into).1 =
      upsertAll Block.key emptyBlock into (t.gathered.map fun g =>
        (listKey p g.key, merge IpvsDest.addr newDest
          (g.all.map fun r => (p.name r.server, r.fill kind)))) := by
  unfold parseListing
  dsimp only
  rw [(takes_listRow p kind).scan_rows (p.rows_listing kind t), scan_sections (by simp),
    gathered_listed, List.map_map]
  refine congrArg (upsertAll Block.key emptyBlock into) (List.map_congr_left fun g _ => ?_)
  simp only [Function.comp_apply, Gathered.all, filterMap_change]

/-- **The first listing** makes one service for each address. -/
theorem parseListing_plain (t : Table) :
    (parseListing (p.listing .plain t) .plain []).1 =
      listed p (fun g => put p .plain g.all []) t := by
  rw [parseListing_services]
  exact upsertAll_nil (fun _ => rfl) (fun _ _ _ => rfl) (listKey_nodup p t)

/-- **A later listing** adds its columns to each service. -/
theorem parseListing_later (kind : Kind) (t : Table)
    (entries : Gathered (Proto × Endpoint) Dest → List IpvsDest) :
    (parseListing (p.listing kind t) kind (listed p entries t)).1 =
      listed p (fun g => put p kind g.all (entries g)) t := by
  rw [parseListing_services]
  exact upsertAll_map (fun _ _ _ => rfl) (fun _ _ => rfl) (listKey_nodup p t)

/-! The order of a listing is that of the services. -/

/-- The services of two runs of rows follow each other. -/
theorem opened_append (rows rows' : List (Row (String × String) String IpvsDest)) :
    opened (rows ++ rows') = opened rows ++ opened rows' :=
  List.filterMap_append

/-- Rows that open nothing open no service. -/
theorem opened_eq_nil {rows : List (Row (String × String) String IpvsDest)}
    (hrows : ∀ row ∈ rows, ∀ k, row ≠ .opens k) : opened rows = [] := by
  refine List.filterMap_eq_nil_iff.mpr fun row hrow => ?_
  cases row with
  | opens k => exact absurd rfl (hrows _ hrow k)
  | closes => rfl
  | entry change => rfl
  | other => rfl

/-- The row of a destination opens no service. -/
theorem entryRow_ne_opens (change : Dest → Option (Change String IpvsDest)) (r : Dest)
    (k : String × String) : entryRow change r ≠ .opens k := by
  unfold entryRow
  split <;> simp

/-- Sections open their own services. -/
theorem opened_sections {change : Dest → Option (Change String IpvsDest)}
    (sections : List (Section (String × String) Dest)) :
    opened (sections.flatMap (Section.rows change)) =
      (CursorReader.gathered sections).map (·.key) := by
  induction sections with
  | nil => rfl
  | cons s rest ih =>
      obtain ⟨head, body⟩ := s
      have hbody : opened (body.map (entryRow change)) = [] := by
        refine opened_eq_nil fun row hrow => ?_
        obtain ⟨r, -, rfl⟩ := List.mem_map.mp hrow
        exact entryRow_ne_opens change r
      have hhead : opened (Section.rows change ⟨head, body⟩) =
          opened [head.row] ++ opened (body.map (entryRow change)) :=
        opened_append [head.row] _
      rw [List.flatMap_cons, opened_append, ih, hhead, hbody, List.append_nil]
      cases head <;> rfl

/-- A listing has the services in the order of the table. -/
theorem parseListing_order (t : Table) (into : List IpvsService) :
    (parseListing (p.listing .plain t) .plain into).2 =
      t.gathered.map fun g => listKey p g.key := by
  have htakes := takes_listRow p .plain
  have hfilter : ∀ rows : List (List String),
      opened (rows.map (listRow .plain)) = opened ((rows.filter (· ≠ [])).map (listRow .plain)) := by
    intro rows
    induction rows with
    | nil => rfl
    | cons row rows ih =>
        by_cases hrow : row = []
        · subst hrow
          exact ih
        · rw [List.filter_cons_of_pos (by simpa using hrow), List.map_cons, List.map_cons,
            ← List.singleton_append, opened_append, ih, ← opened_append, List.singleton_append]
  have htitle : opened ((p.listed .plain).title.map (listRow .plain)) = [] := by
    refine opened_eq_nil fun row hrow => ?_
    obtain ⟨fields, hfields, rfl⟩ := List.mem_map.mp hrow
    exact htakes.title fields hfields
  unfold parseListing
  dsimp only
  rw [hfilter, p.rows_listing .plain t, htakes.map_rows, opened_append, htitle, List.nil_append,
    opened_sections, gathered_listed, List.map_map]
  rfl

/-! ## One destination under three listings -/

/-- What the agent reads of a destination. -/
def Dest.numbers (r : Dest) : List Nat :=
  [r.weight, r.counts.activeConns, r.counts.inactConns, r.counts.conns, r.counts.inPkts,
    r.counts.inBytes, r.counts.cps, r.counts.inPps]

/-- A destination after all three listings. -/
def Dest.merged (r : Dest) (d : IpvsDest) : IpvsDest := r.fill .rate (r.fill .stats (r.fill .plain d))

@[simp] theorem fill_addr (kind : Kind) (r : Dest) (d : IpvsDest) : (r.fill kind d).addr = d.addr := by
  cases kind <;> rfl

/-- A later row takes the place of an earlier one. -/
theorem fill_fill (kind : Kind) (r s : Dest) (d : IpvsDest) :
    s.fill kind (r.fill kind d) = s.fill kind d := by
  cases kind <;> rfl

/-- Rows with the same numbers are merged alike. -/
theorem merged_eq_iff {r s : Dest} {addr : String} :
    r.merged (newDest addr) = s.merged (newDest addr) ↔ r.numbers = s.numbers := by
  simp [Dest.merged, Dest.fill, Dest.numbers]

theorem plain_eq_of_numbers {r s : Dest} (h : r.numbers = s.numbers) (d : IpvsDest) :
    r.fill .plain d = s.fill .plain d := by
  simp only [Dest.numbers, List.cons.injEq] at h
  simp [Dest.fill, h]

/-- The last row of a server. -/
def lastRow (e : Endpoint) (rows : List Dest) : Option Dest :=
  (rows.filter (·.server = e)).getLast?

/-- The last row under a name. -/
def lastNamed (k : String) (rows : List Dest) : Option Dest :=
  (rows.filter (p.name ·.server = k)).getLast?

/-- The last row under an endpoint's name is its last row. -/
theorem lastNamed_name (e : Endpoint) (rows : List Dest) :
    lastNamed p (p.name e) rows = lastRow e rows := by
  unfold lastNamed lastRow
  simp only [p.name_injective.eq_iff]

/-- The last row under a name is the one that counts. -/
theorem changed_fill (kind : Kind) (k : String) (x : Option IpvsDest) (rows : List Dest) :
    changed newDest k x (rows.map (·.fill kind)) =
      match rows.getLast? with
      | none => x
      | some r => some (r.fill kind (x.getD (newDest k))) := by
  cases rows with
  | nil => rfl
  | cons r rows =>
      have hfold : ∀ (rows : List Dest) (r : Dest) (d : IpvsDest),
          (rows.map (·.fill kind)).foldl (fun e f => f e) (r.fill kind d) =
            ((r :: rows).getLast (by simp)).fill kind d := by
        intro rows
        induction rows with
        | nil => exact fun r d => rfl
        | cons s rows ih =>
            intro r d
            rw [List.map_cons, List.foldl_cons, fill_fill, ih]
            rfl
      rw [List.getLast?_eq_some_getLast (by simp)]
      exact congrArg some (hfold rows r _)

/-- What a listing leaves under a name. -/
theorem find_put (kind : Kind) (rows : List Dest) (entries : List IpvsDest) (k : String) :
    find IpvsDest.addr k (put p kind rows entries) =
      match lastNamed p k rows with
      | none => find IpvsDest.addr k entries
      | some r => some (r.fill kind ((find IpvsDest.addr k entries).getD (newDest k))) := by
  have hchanges : changesOf k (rows.map fun r => (p.name r.server, r.fill kind)) =
      (rows.filter (p.name ·.server = k)).map (·.fill kind) := by
    unfold changesOf
    rw [List.filter_map, List.map_map]
    rfl
  unfold put
  rw [find_upsertAll (fun _ => rfl), hchanges, changed_fill]
  · rfl
  · intro u hu d
    obtain ⟨r, -, rfl⟩ := List.mem_map.mp hu
    exact fill_addr kind r d

/-- What all three listings leave of a destination comes from its last row. -/
def putAll (rows : List Dest) : List IpvsDest :=
  put p .rate rows (put p .stats rows (put p .plain rows []))

/-- After the plain listing a name has what its last row says. -/
theorem find_putPlain (rows : List Dest) (k : String) :
    find IpvsDest.addr k (put p .plain rows []) =
      (lastNamed p k rows).map fun r => r.fill .plain (newDest k) := by
  rw [find_put]
  cases lastNamed p k rows <;> rfl

/-- After all listings it has what its last row says in each. -/
theorem find_putAll (rows : List Dest) (k : String) :
    find IpvsDest.addr k (putAll p rows) =
      (lastNamed p k rows).map fun r => r.merged (newDest k) := by
  rw [putAll, find_put, find_put, find_putPlain]
  cases lastNamed p k rows <;> rfl

/-- **Three listings of one table** make the services of the kernel, each with its own rows
and those behind it. -/
theorem readListings_services (t : Table) :
    (readListings (p.listing .plain t) (some (p.listing .stats t))
      (some (p.listing .rate t))).services = listed p (fun g => putAll p g.all) t := by
  have hplain := parseListing_plain p t
  unfold readListings
  simp only [Option.map_some, Option.getD_some]
  rw [hplain, parseListing_later, parseListing_later]
  rfl

end AdguardAdmin.Ipvs
