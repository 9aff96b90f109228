import AdguardAdmin.IpvsPrints
import AdguardAdmin.KeepalivedDecoding
import AdguardAdmin.KeyedTotals
/-!
# The reported state of the kernel balancer

For each backend of a spec the agent adds up the destinations with the backend's address
in the services of the VIP.  The sums are kept under the address, which two backends may
share, and a service that does not have the backend adds nothing.

* `status_rows` — a backend's entry comes from the rows read for its address;
* `name_eq_iff` — which destinations have the name of a backend.
-/

namespace AdguardAdmin.Ipvs

open GoText IpLiterals CursorReader Upserts
open Keepalived (Backend IpvsSpec)

/-! ## The status -/

/-- What the services of the VIP add up to for one address. -/
structure Agg where
  seen : Nat
  up : Bool
  weight : Int
  active : Nat
  inactive : Nat
  conns : Nat
  inPkts : Nat
  inBytes : Nat
  cps : Nat
  inPps : Nat
  deriving DecidableEq, Repr

def serverKey (b : Backend) : String := joinHostPort b.address (toString b.port)

def newAgg (b : Backend) : Agg := ⟨0, true, b.weight, 0, 0, 0, 0, 0, 0, 0⟩

def Agg.add (a : Agg) (d : IpvsDest) : Agg where
  seen := a.seen + 1
  up := if d.seenWeight ∧ d.weight = 0 then false else a.up
  weight := if d.seenWeight then d.weight else a.weight
  active := a.active + d.activeConns
  inactive := a.inactive + d.inactConns
  conns := a.conns + d.conns
  inPkts := a.inPkts + d.inPkts
  inBytes := a.inBytes + d.inBytes
  cps := a.cps + d.cps
  inPps := a.inPps + d.inPps

/-- One entry of the reported backends. -/
@[ext]
structure Entry where
  name : String
  address : String
  port : Int
  weight : Int
  up : Bool
  drained : Bool
  activeConns : Nat
  inactiveConns : Nat
  conns : Option Nat
  inPkts : Option Nat
  inBytes : Option Nat
  cps : Option Nat
  inPps : Option Nat
  deriving DecidableEq, Repr

/-- Null where the source has no such counters. -/
def num (counters : Bool) (n : Nat) : Option Nat := if counters then some n else none

def Agg.entry (a : Agg) (counters : Bool) (drained : String → Bool) (b : Backend) : Entry where
  name := b.name
  address := b.address
  port := b.port
  weight := a.weight
  up := 0 < a.seen && a.up
  drained := drained b.name
  activeConns := a.active
  inactiveConns := a.inactive
  conns := num counters a.conns
  inPkts := num counters a.inPkts
  inBytes := num counters a.inBytes
  cps := num counters a.cps
  inPps := num counters a.inPps

structure Status where
  present : Bool
  services : Nat
  backends : List Entry
  message : String
  deriving DecidableEq, Repr

/-- The services in the order in which they were read. -/
def Reading.ordered (r : Reading) : List IpvsService :=
  r.order.filterMap fun k => find Block.key k r.services

/-- Whether a service listens on the VIP. -/
def isOf (vip : String) (svc : IpvsService) : Bool :=
  (splitHostPort svc.key.2).any (·.1 = vip)

def ipvsStatus (a : Answers) (drained : String → Bool) (v : IpvsSpec) : Status :=
  let reading := readIPVS a
  let ofVip := reading.ordered.filter (isOf v.vip)
  let aggs := KeyedTotals.addAll IpvsDest.addr Agg.add
    (KeyedTotals.start serverKey newAgg v.backends) (ofVip.flatMap (·.entries))
  { present := 0 < ofVip.length
    services := ofVip.length
    backends := v.backends.map fun b =>
      ((aggs (serverKey b)).getD (newAgg b)).entry reading.counters drained b
    message := reading.message }

/-! ## Answers of a table -/

/-- Prints that write an address as a literal of it, and a port in decimal. -/
structure NumericPrints extends Prints where
  host : Ip → String
  name_eq : ∀ e, name e = joinHostPort (host e.ip) (toString e.port.val)
  host_parses : ∀ ip, parseAddr (host ip).toList = some ip

/-- Answers that come from a table: all three listings, or the kernel's file where it
writes the table's addresses as `ipvsadm` does. -/
def ShownBy (p : Prints) (t : Table) (a : Answers) : Prop :=
  (a.installed = true ∧ a.plain = .ok (p.listing .plain t) ∧
    a.stats = some (p.listing .stats t) ∧ a.rate = some (p.listing .rate t)) ∨
  ((a.installed = false ∨ ∃ message, a.plain = .error message) ∧ a.proc = some (p.procText t) ∧
    ∀ g ∈ t.gathered, p.Alike g.key.2 ∧ ∀ r ∈ g.all, p.Alike r.server)

/-- An endpoint is that of a backend. -/
def IsServer (b : Backend) (e : Endpoint) : Prop :=
  parseIP b.address = some e.ip ∧ b.port = e.port.val

instance (b : Backend) (e : Endpoint) : Decidable (IsServer b e) :=
  inferInstanceAs (Decidable (_ ∧ _))

/-! ## What the answers are read as -/

section Reading

variable (p : Prints) {t : Table} {a : Answers}

/-- What the agent keeps of a destination's last row. -/
def Dest.kept (counters : Bool) (r : Dest) (addr : String) : IpvsDest :=
  if counters then r.merged (newDest addr) else r.fill .plain (newDest addr)

/-- The answers are read as the services of the table, whose destinations come from the
last rows under their names. -/
structure ReadAs (t : Table) (reading : Reading) (entries : Gathered (Proto × Endpoint) Dest →
    List IpvsDest) : Prop where
  services : reading.services = listed p entries t
  order : reading.order = t.gathered.map fun g => listKey p g.key
  nodup : ∀ g, ((entries g).map IpvsDest.addr).Nodup
  find : ∀ g k, find IpvsDest.addr k (entries g) =
    (lastNamed p k g.all).map fun r => r.kept reading.counters k

/-- A row that is put keeps the addresses distinct. -/
theorem nodup_put (kind : Kind) (rows : List Dest) {entries : List IpvsDest}
    (hnodup : (entries.map IpvsDest.addr).Nodup) :
    ((put p kind rows entries).map IpvsDest.addr).Nodup :=
  nodup_upsertAll (fun _ => rfl) (keeps_fill p kind rows) hnodup

/-- The three listings of a table are read as its rows. -/
theorem readAs_listings (t : Table) :
    ReadAs p t (readListings (p.listing .plain t) (some (p.listing .stats t))
      (some (p.listing .rate t))) (fun g => putAll p g.all) where
  services := readListings_services p t
  order := parseListing_order p t []
  nodup := fun g => nodup_put p .rate _ (nodup_put p .stats _ (nodup_put p .plain _ (by simp)))
  find := fun g k => find_putAll p g.all k

/-- The kernel's file is read as the table, where it names the addresses alike. -/
theorem readAs_proc (halike : ∀ g ∈ t.gathered, p.Alike g.key.2 ∧ ∀ r ∈ g.all, p.Alike r.server)
    (message : String) :
    ReadAs p t (readProc (some (p.procText t)) message) (fun g => put p .plain g.all []) := by
  have hservices : (parseProcIPVS (p.procText t)).1 = listed p (fun g => put p .plain g.all []) t := by
    rw [parseProcIPVS_listed p fun g hg => (halike g hg).1]
    refine List.map_congr_left fun g hg => ?_
    have hchanges := filterMap_procChange p (halike g hg).2
    dsimp only
    rw [hchanges, put]
  refine ⟨hservices, ?_, fun g => nodup_put p .plain _ (by simp), fun g k => find_putPlain p g.all k⟩
  have horder : (parseProcIPVS (p.procText t)).2 = (parseProcIPVS (p.procText t)).1.map (·.key) := rfl
  have hread : (readProc (some (p.procText t)) message).order = (parseProcIPVS (p.procText t)).2 := rfl
  rw [hread, horder, hservices, listed, List.map_map]
  rfl

/-- Every answer that shows the table is read as the table. -/
theorem readAs_of_shown (hshown : ShownBy p t a) : ∃ entries, ReadAs p t (readIPVS a) entries := by
  obtain ⟨installed, plain, stats, rate, proc⟩ := a
  rcases hshown with ⟨rfl, rfl, rfl, rfl⟩ | ⟨hplain, rfl, halike⟩
  · exact ⟨_, readAs_listings p t⟩
  · rcases hplain with rfl | ⟨message, rfl⟩
    · exact ⟨_, readAs_proc p halike _⟩
    · cases installed with
      | true => exact ⟨_, readAs_proc p halike _⟩
      | false => exact ⟨_, readAs_proc p halike _⟩

/-- The services are ordered as they are listed. -/
theorem ReadAs.ordered {reading : Reading} {entries : Gathered (Proto × Endpoint) Dest →
    List IpvsDest} (h : ReadAs p t reading entries) : reading.ordered = listed p entries t := by
  have hkeys : (listed p entries t).map Block.key = t.gathered.map fun g => listKey p g.key := by
    rw [listed, List.map_map]
    rfl
  unfold Reading.ordered
  rw [h.order, h.services, ← hkeys]
  exact filterMap_find (by rw [hkeys]; exact listKey_nodup p t)

end Reading

/-! ## From rows to entries -/

section Rows

variable (p : NumericPrints)

/-- An endpoint is divided into its address and its port. -/
theorem splitHostPort_name (e : Endpoint) :
    splitHostPort (p.name e) = some (p.host e.ip, toString e.port.val) := by
  rw [p.name_eq]
  exact splitHostPort_joinHostPort (noBrackets_of_literal (parseAddr_chars (p.host_parses e.ip)))
    (noBrackets_repr e.port.val)

/-- A service is one of the VIP when its address is printed so. -/
theorem isOf_listKey (vip : String) (k : Proto × Endpoint) (entries : List IpvsDest) :
    isOf vip ⟨listKey p.toPrints k, entries⟩ = decide (p.host k.2.ip = vip) := by
  simp [isOf, listKey, splitHostPort_name]

/-- The rows read for a name in the services whose address is written like the VIP. -/
def readRows (t : Table) (vip key : String) : List Dest :=
  (t.gathered.filter fun g => p.host g.key.2.ip = vip).filterMap fun g =>
    lastNamed p.toPrints key g.all

variable {t : Table} {reading : Reading} {entries : Gathered (Proto × Endpoint) Dest → List IpvsDest}

/-- The services of the VIP are those of the table. -/
theorem filter_isOf (vip : String) : (listed p.toPrints entries t).filter (isOf vip) =
    (t.gathered.filter fun g => p.host g.key.2.ip = vip).map fun g =>
      ⟨listKey p.toPrints g.key, entries g⟩ := by
  rw [listed, List.filter_map]
  congr 1
  exact List.filter_congr fun g _ => isOf_listKey p vip g.key (entries g)

/-- In these services an address has what was kept of the rows under its name. -/
theorem ReadAs.entries_named (h : ReadAs p.toPrints t reading entries) (vip k : String) :
    ((((listed p.toPrints entries t).filter (isOf vip)).flatMap (·.entries)).filter
      (·.addr = k)) = (readRows p t vip k).map fun r => r.kept reading.counters k := by
  rw [filter_isOf, List.flatMap_map, List.filter_flatMap, readRows, List.map_filterMap]
  generalize t.gathered.filter (fun g => p.host g.key.2.ip = vip) = gs
  induction gs with
  | nil => rfl
  | cons g gs ih =>
      rw [List.flatMap_cons, ih, filter_key_eq (h.nodup g), h.find, List.filterMap_cons]
      cases lastNamed p.toPrints k g.all <;> rfl

end Rows

/-! ## What rows add up to -/

/-- The entry of a backend whose total was started by `first`. -/
def entryOf (counters : Bool) (drained : String → Bool) (first : Backend) (rows : List Dest)
    (b : Backend) : Entry :=
  ((rows.map fun r => r.kept counters (serverKey b)).foldl Agg.add (newAgg first)).entry
    counters drained b

section Totals

variable (counters : Bool) (drained : String → Bool) (first b : Backend) (rows : List Dest)

/-- A row shows its weight. -/
theorem kept_weight (r : Dest) (addr : String) :
    (r.kept counters addr).seenWeight = true ∧ (r.kept counters addr).weight = r.weight := by
  unfold Dest.kept
  cases counters <;> exact ⟨rfl, rfl⟩

/-- Rows are counted. -/
theorem seen_foldl (ds : List IpvsDest) (a : Agg) :
    (ds.foldl Agg.add a).seen = a.seen + ds.length := by
  rw [KeyedTotals.foldl_sum (f := Agg.seen) (g := fun _ => 1) fun _ _ => rfl]
  simp

/-- A backend is up when none of its rows has weight zero. -/
theorem up_foldl (addr : String) (a : Agg) :
    ((rows.map fun r => r.kept counters addr).foldl Agg.add a).up =
      (a.up && rows.all fun r => decide (0 < r.weight)) := by
  induction rows generalizing a with
  | nil => simp
  | cons r rows ih =>
      obtain ⟨hseen, hweight⟩ := kept_weight counters r addr
      have hup : (a.add (r.kept counters addr)).up = (a.up && decide (0 < r.weight)) := by
        simp only [Agg.add, hseen, hweight]
        by_cases hzero : r.weight = 0
        · simp [hzero]
        · have hpos : 0 < r.weight := Nat.pos_of_ne_zero hzero
          simp [hzero, hpos]
      rw [List.map_cons, List.foldl_cons, ih, hup, List.all_cons, Bool.and_assoc]

/-- The weight of a backend is that of its last row. -/
theorem weight_foldl (addr : String) (a : Agg) :
    ((rows.map fun r => r.kept counters addr).foldl Agg.add a).weight =
      (rows.getLast?.map fun r => (r.weight : Int)).getD a.weight := by
  induction rows generalizing a with
  | nil => rfl
  | cons r rows ih =>
      obtain ⟨hseen, hweight⟩ := kept_weight counters r addr
      have hadd : (a.add (r.kept counters addr)).weight = r.weight := by
        simp only [Agg.add, hseen, hweight, if_true]
      rw [List.map_cons, List.foldl_cons, ih, hadd, List.getLast?_cons]
      cases rows.getLast? <;> rfl

/-- A backend is reported up exactly when it has rows, all with a weight. -/
@[simp] theorem entryOf_up : (entryOf counters drained first rows b).up = true ↔
    rows ≠ [] ∧ ∀ r ∈ rows, 0 < r.weight := by
  simp only [entryOf, Agg.entry, seen_foldl, up_foldl, newAgg, Bool.and_eq_true,
    decide_eq_true_eq, List.all_eq_true, List.length_map, Nat.zero_add, List.length_pos_iff_ne_nil,
    true_and]

/-- The weight of the report is that of the last row, or of the spec. -/
theorem entryOf_weight : (entryOf counters drained first rows b).weight =
    (rows.getLast?.map fun r => (r.weight : Int)).getD first.weight :=
  weight_foldl counters rows _ _

/-- A number that both sources have is summed alike. -/
theorem sum_kept {f : Agg → Nat} {g : IpvsDest → Nat} {n : Dest → Nat}
    (hadd : ∀ a d, f (a.add d) = f a + g d) (hzero : f (newAgg first) = 0)
    (hkept : ∀ r addr, g (Dest.kept counters r addr) = n r) (addr : String) :
    f ((rows.map fun r => r.kept counters addr).foldl Agg.add (newAgg first)) =
      (rows.map n).sum := by
  rw [KeyedTotals.foldl_sum hadd, hzero, Nat.zero_add, List.map_map]
  exact congrArg List.sum (List.map_congr_left fun r _ => hkept r addr)

@[simp] theorem entryOf_activeConns : (entryOf counters drained first rows b).activeConns =
    (rows.map (·.counts.activeConns)).sum :=
  sum_kept counters first rows (f := Agg.active) (fun _ _ => rfl) rfl
    (fun r addr => by unfold Dest.kept; cases counters <;> rfl) _

@[simp] theorem entryOf_inactiveConns : (entryOf counters drained first rows b).inactiveConns =
    (rows.map (·.counts.inactConns)).sum :=
  sum_kept counters first rows (f := Agg.inactive) (fun _ _ => rfl) rfl
    (fun r addr => by unfold Dest.kept; cases counters <;> rfl) _

/-- A number that only `ipvsadm` has. -/
theorem num_sum_kept {f : Agg → Nat} {g : IpvsDest → Nat} {n : Dest → Nat}
    (hadd : ∀ a d, f (a.add d) = f a + g d) (hzero : f (newAgg first) = 0)
    (hkept : ∀ r addr, g (Dest.kept true r addr) = n r) (addr : String) :
    num counters (f ((rows.map fun r => r.kept counters addr).foldl Agg.add (newAgg first))) =
      num counters (rows.map n).sum := by
  cases counters with
  | false => rfl
  | true => rw [sum_kept true first rows hadd hzero hkept]

@[simp] theorem entryOf_conns : (entryOf counters drained first rows b).conns =
    num counters (rows.map (·.counts.conns)).sum :=
  num_sum_kept counters first rows (f := Agg.conns) (fun _ _ => rfl) rfl (fun _ _ => rfl) _

@[simp] theorem entryOf_inPkts : (entryOf counters drained first rows b).inPkts =
    num counters (rows.map (·.counts.inPkts)).sum :=
  num_sum_kept counters first rows (f := Agg.inPkts) (fun _ _ => rfl) rfl (fun _ _ => rfl) _

@[simp] theorem entryOf_inBytes : (entryOf counters drained first rows b).inBytes =
    num counters (rows.map (·.counts.inBytes)).sum :=
  num_sum_kept counters first rows (f := Agg.inBytes) (fun _ _ => rfl) rfl (fun _ _ => rfl) _

@[simp] theorem entryOf_cps : (entryOf counters drained first rows b).cps =
    num counters (rows.map (·.counts.cps)).sum :=
  num_sum_kept counters first rows (f := Agg.cps) (fun _ _ => rfl) rfl (fun _ _ => rfl) _

@[simp] theorem entryOf_inPps : (entryOf counters drained first rows b).inPps =
    num counters (rows.map (·.counts.inPps)).sum :=
  num_sum_kept counters first rows (f := Agg.inPps) (fun _ _ => rfl) rfl (fun _ _ => rfl) _

/-- Another backend's total shows only in the weight of a backend that has no row. -/
theorem entryOf_eq_iff : entryOf counters drained b rows b = entryOf counters drained first rows b ↔
    (rows = [] → first.weight = b.weight) := by
  constructor
  · intro hsame hempty
    have hweights := congrArg Entry.weight hsame
    rw [entryOf_weight, entryOf_weight, hempty] at hweights
    exact hweights.symm
  · intro hweight
    have hup : (entryOf counters drained b rows b).up = (entryOf counters drained first rows b).up := by
      rw [Bool.eq_iff_iff, entryOf_up, entryOf_up]
    have hweights : (entryOf counters drained b rows b).weight =
        (entryOf counters drained first rows b).weight := by
      rw [entryOf_weight, entryOf_weight]
      cases hlast : rows.getLast? with
      | some r => rfl
      | none => exact (hweight (List.getLast?_eq_none_iff.mp hlast)).symm
    exact Entry.ext rfl rfl rfl hweights hup rfl (by simp) (by simp) (by simp) (by simp) (by simp)
      (by simp) (by simp)

end Totals

/-! ## Addresses of an accepted spec -/

section Spec

variable {v : IpvsSpec}

/-- What the decoder makes of the addresses it accepts. -/
structure Canonical (v : IpvsSpec) : Prop where
  vip : ∃ ip, v.vip = ipString ip ∧ parseIP v.vip = some ip
  backends : ∀ b ∈ v.backends, ∃ e : Endpoint,
    b.address = ipString e.ip ∧ parseIP b.address = some e.ip ∧ b.port = e.port.val

/-- Backends that were accepted have literals as addresses. -/
theorem decodeBackends_canonical {seen : List String} {bs checked : List Backend}
    (h : Keepalived.decodeBackends seen bs = .ok checked) :
    ∀ b ∈ checked, ∃ e : Endpoint,
      b.address = ipString e.ip ∧ parseIP b.address = some e.ip ∧ b.port = e.port.val := by
  induction bs generalizing seen checked with
  | nil =>
      obtain rfl : [] = checked := Except.ok.inj h
      simp
  | cons b bs ih =>
      obtain ⟨_, -, h⟩ := bind_ok.mp h
      obtain ⟨_, -, h⟩ := bind_ok.mp h
      obtain ⟨ip, hip, h⟩ := bind_ok.mp h
      obtain ⟨_, hport, h⟩ := bind_ok.mp h
      obtain ⟨_, -, h⟩ := bind_ok.mp h
      obtain ⟨rest, hrest, h⟩ := bind_ok.mp h
      obtain rfl := pure_ok.mp h
      obtain ⟨hlow, hhigh⟩ : Keepalived.IsPort b.port := not_not.mp (failIf_ok.mp hport)
      refine List.forall_mem_cons.mpr ⟨?_, ih hrest⟩
      refine ⟨⟨ip, Fin.ofNat 65536 b.port.toNat⟩, rfl, parseIP_ipString (orFail_ok.mp hip), ?_⟩
      simp only [Fin.val_ofNat]
      omega

/-- An enabled balancer has canonical addresses, and one that is off has no backends. -/
theorem decode_canonical {raw : Json Int} {spec : Keepalived.Spec}
    (hspec : Keepalived.decode raw = .ok spec) (hv : spec.ipvs = some v) :
    Canonical v ∨ v.backends = [] := by
  obtain ⟨vipIp, fields, i, -, -, h⟩ := Keepalived.decode_ipvs hspec hv
  unfold Keepalived.decodeIpvs at h
  split at h
  · obtain ⟨ip, hip, h⟩ := bind_ok.mp h
    obtain ⟨_, -, h⟩ := bind_ok.mp h
    obtain ⟨_, -, h⟩ := bind_ok.mp h
    obtain ⟨_, -, h⟩ := bind_ok.mp h
    obtain ⟨_, -, h⟩ := bind_ok.mp h
    obtain ⟨_, hbackends, h⟩ := bind_ok.mp h
    obtain ⟨_, -, h⟩ := bind_ok.mp h
    obtain rfl := pure_ok.mp h
    exact .inl ⟨⟨ip, rfl, parseIP_ipString (orFail_ok.mp hip)⟩, decodeBackends_canonical hbackends⟩
  · obtain rfl := Except.ok.inj h
    exact .inr rfl

end Spec

/-! ## Rows under a backend's name -/

section Named

variable (p : NumericPrints) {v : IpvsSpec} {b : Backend} (hv : Canonical v) (hb : b ∈ v.backends)

include hv in
/-- An address written like the VIP is the VIP. -/
theorem parseIP_of_host {ip : Ip} (h : p.host ip = v.vip) : parseIP v.vip = some ip := by
  obtain ⟨vip, htext, hparse⟩ := hv.vip
  have hliteral := p.host_parses ip
  rw [h, htext, parseAddr_ipString] at hliteral
  rw [hparse, Option.some.inj hliteral]

include hv hb in
/-- A destination has a backend's name when it is the backend's and written like it. -/
theorem name_eq_iff (e : Endpoint) :
    p.name e = serverKey b ↔ IsServer b e ∧ p.host e.ip = b.address := by
  obtain ⟨e', htext, hparse, hport⟩ := hv.backends b hb
  have hkey : serverKey b = joinHostPort (ipString e'.ip) (toString e'.port.val) := by
    rw [serverKey, htext, hport]
    rfl
  constructor
  · intro hname
    have hsplit := splitHostPort_name p e
    rw [hname, hkey, splitHostPort_endpoint, Option.some.injEq, Prod.mk.injEq] at hsplit
    obtain ⟨hhost, hdigits⟩ := hsplit
    have hliteral := p.host_parses e.ip
    rw [← hhost, parseAddr_ipString] at hliteral
    have hread := congrArg bigNum hdigits
    rw [Nat.toString_eq_repr, Nat.toString_eq_repr, bigNum_repr, bigNum_repr] at hread
    refine ⟨⟨?_, ?_⟩, ?_⟩
    · rw [hparse]
      exact hliteral
    · rw [hport, hread]
    · rw [← hhost, htext]
  · rintro ⟨⟨hip, hnum⟩, hhost⟩
    have hsame : e.port.val = e'.port.val := by
      rw [hport] at hnum
      exact_mod_cast hnum.symm
    rw [p.name_eq, hkey, hhost, htext, hsame]

/-- The backend whose total is kept under the address of `b`: the last with that address. -/
def keeper (v : IpvsSpec) (b : Backend) : Backend :=
  ((v.backends.filter (serverKey · = serverKey b)).getLast?).getD b

variable {p} {t : Table} {a : Answers}

/-- **Each backend has its own entry**, from the rows read for its address. -/
theorem status_rows (hshown : ShownBy p.toPrints t a) (drained : String → Bool) (v : IpvsSpec) :
    (ipvsStatus a drained v).backends = v.backends.map fun b =>
      entryOf (readIPVS a).counters drained (keeper v b) (readRows p t v.vip (serverKey b)) b := by
  obtain ⟨entries, hread⟩ := readAs_of_shown p.toPrints hshown
  unfold ipvsStatus
  dsimp only
  rw [hread.ordered]
  refine List.map_congr_left fun b hb => ?_
  rw [KeyedTotals.addAll_apply, KeyedTotals.start_apply, hread.entries_named]
  have hmem : b ∈ v.backends.filter (serverKey · = serverKey b) := by simp [hb]
  unfold keeper
  rw [List.getLast?_eq_some_getLast (List.ne_nil_of_mem hmem)]
  rfl

theorem keeper_single (v : IpvsSpec) (b : Backend) : keeper { v with backends := [b] } b = b := by
  simp [keeper]

end Named

end AdguardAdmin.Ipvs
