import AdguardAdmin.FaultyPrograms
import AdguardAdmin.Drains
/-!
# One drain of a kernel backend

A backend of the kernel's balancer stands in one virtual service for each port and
protocol.  `SetDrained` edits its weight there, service after service, then changes the
map, then writes the file, and returns at the first of these that fails.  Nothing is set
back: what was done up to that point stays done.

* `setWeights_ok`, `setWeights_error` — which edits a call has made when it returns;
* `drain_allOrNothing_iff` — when it has made all of them or none.
-/

namespace AdguardAdmin.SetDrained

open Faulty Drains Keepalived

/-! ## The host -/

/-- The kernel's table as `ipvsadm` edits it, the map of the role and its file. -/
structure Host where
  weights : RealServer → Option Int
  drained : List String
  file : Option (List String)

/-- Every command and file write of a call; the edits are numbered. -/
inductive Point where
  | edit (i : Nat)
  | writeDrained
  deriving DecidableEq, Repr

/-- Give the entries that are in the table a weight. -/
def Host.weigh (weight : Int) (cells : List RealServer) (h : Host) : Host :=
  { h with weights := fun c => if c ∈ cells then (h.weights c).map fun _ => weight else h.weights c }

/-- `ipvsadm -e`: an entry that is not in the table is an error.  A command that is cut off
may have made its edit already. -/
def edit (i : Nat) (cell : RealServer) (weight : Int) : Prog Point Host Unit := do
  let found ← Prog.read fun h : Host => (h.weights cell).isSome
  Prog.refuseIf (found = false) "No such destination"
  Prog.tearable (.edit i) (Host.weigh weight [cell]) (Host.weigh weight [cell])

/-- `setWeight`, from its `i`-th edit on. -/
def setWeights (weight : Int) : Nat → List RealServer → Prog Point Host Unit
  | _, [] => pure ()
  | i, cell :: todo => do
      edit i cell weight
      setWeights weight (i + 1) todo

/-- The map after a drain or an undrain. -/
def drainedAfter (name : String) (drain : Bool) (drained : List String) : List String :=
  if drain then insertName name drained else eraseName name drained

/-- The weight that is set. -/
def weightFor (b : Backend) (drain : Bool) : Int := if drain then 0 else b.weight

/-- The part of `SetDrained` behind its checks. -/
def drainBackend (v : IpvsSpec) (b : Backend) (drain : Bool) : Prog Point Host Unit := do
  setWeights (weightFor b drain) 0 (realServers v b)
  Prog.update fun h => { h with drained := drainedAfter b.name drain h.drained }
  let names ← Prog.read fun h : Host => sortedNames h.drained
  Prog.command .writeDrained fun h => { h with file := some names }

/-- The backend a request is about, with the balancer it belongs to. -/
def target (spec : Option Spec) (name : String) : Except String (IpvsSpec × Backend) :=
  match spec.bind fun s => if s.ipvsOn then s.ipvs else none with
  | none => .error "ipvs is not managed on this host"
  | some v =>
      match v.backends.find? (·.name = name) with
      | none => .error "no backend named %q"
      | some b => .ok (v, b)

def setDrained (spec : Option Spec) (name : String) (drain : Bool) : Prog Point Host Unit :=
  match target spec name with
  | .error message => Prog.refuse message
  | .ok (v, b) => drainBackend v b drain

/-! ## Edits -/

variable {weight : Int} {cells : List RealServer} {f : Script Point} {h t : Host}

@[simp] theorem weigh_drained : (h.weigh weight cells).drained = h.drained := rfl

@[simp] theorem weigh_file : (h.weigh weight cells).file = h.file := rfl

@[simp] theorem weigh_nil : h.weigh weight [] = h := by
  simp [Host.weigh]

/-- An entry is there after an edit exactly when it was there before. -/
@[simp] theorem isSome_weights_weigh (c : RealServer) :
    ((h.weigh weight cells).weights c).isSome = (h.weights c).isSome := by
  unfold Host.weigh
  dsimp only
  split <;> simp

/-- Two runs of edits are one. -/
theorem weigh_weigh (todo : List RealServer) :
    (h.weigh weight cells).weigh weight todo = h.weigh weight (cells ++ todo) := by
  unfold Host.weigh
  congr 1
  funext c
  by_cases hfirst : c ∈ cells <;> by_cases hthen : c ∈ todo <;>
    simp [hfirst, hthen, Function.comp_def]

/-- Every entry of the list that is in the table has this weight. -/
def Weighs (weight : Int) (cells : List RealServer) (h : Host) : Prop :=
  ∀ c ∈ cells, ∀ old, h.weights c = some old → old = weight

/-- Edits change nothing exactly when the weights were there before. -/
theorem weigh_eq_iff : h.weigh weight cells = h ↔ Weighs weight cells h := by
  constructor
  · intro hsame c hc old hold
    have hweight := congrArg (fun s => s.weights c) hsame
    simpa [Host.weigh, hc, hold, eq_comm] using hweight
  · intro hweighs
    obtain ⟨weights, drained, file⟩ := h
    unfold Host.weigh
    congr 1
    funext c
    by_cases hc : c ∈ cells
    · cases hold : weights c with
      | none => simp [hold]
      | some old =>
          have hsame : old = weight := hweighs c hc old hold
          simp [hold, hsame]
    · rw [if_neg hc]

/-- The edit of an entry, as the `i`-th of a call, does not go through. -/
def Blocked (f : Script Point) (h : Host) (i : Nat) (cell : RealServer) : Prop :=
  h.weights cell = none ∨ f (.edit i) ≠ .done

/-- The entry that a blocked edit has changed all the same. -/
def torn (f : Script Point) (i : Nat) (cell : RealServer) : List RealServer :=
  if f (.edit i) = .torn then [cell] else []

/-- An edit that ends well was not blocked, and sets the weight. -/
theorem edit_ok {i : Nat} {cell : RealServer} {u : Unit} :
    (edit i cell weight).run f h = (.ok u, t) ↔
      ¬ Blocked f h i cell ∧ t = h.weigh weight [cell] := by
  simp only [edit, Prog.bind_ok, Prog.read_ok, Prog.refuseIf_ok, Prog.tearable_ok, exists_const,
    exists_and_left, exists_eq_left, and_assoc, Blocked]
  simp [and_assoc]

/-- A blocked edit leaves the table as it was, or is torn. -/
theorem edit_error {i : Nat} {cell : RealServer} {e : Failure Point}
    (hrun : (edit i cell weight).run f h = (.error e, t)) :
    Blocked f h i cell ∧ t = h.weigh weight (torn f i cell) := by
  simp only [edit, Prog.bind_error, Prog.read_error, Prog.read_ok, Prog.refuseIf_error,
    Prog.refuseIf_ok, Prog.tearable_error, exists_const, exists_and_left, exists_eq_left,
    false_or, and_assoc] at hrun
  rcases hrun with ⟨habsent, -, rfl⟩ | ⟨hfound, -, ⟨hfailed, rfl⟩ | ⟨htorn, rfl⟩⟩
  · -- an entry that is not in the table has no weight to change
    have hnone : t.weights cell = none := by simpa using habsent
    refine ⟨.inl hnone, (weigh_eq_iff.mpr ?_).symm⟩
    intro c hc old hold
    unfold torn at hc
    split at hc
    · rw [List.mem_singleton.mp hc, hnone] at hold
      exact absurd hold (by simp)
    · exact absurd hc List.not_mem_nil
  · exact ⟨.inr (by simp [hfailed]), by simp [torn, hfailed]⟩
  · exact ⟨.inr (by simp [htorn]), by simp [torn, htorn]⟩

@[simp] theorem blocked_weigh {i : Nat} {c : RealServer} :
    Blocked f (h.weigh weight cells) i c ↔ Blocked f h i c := by
  unfold Blocked
  rw [← Option.not_isSome_iff_eq_none, ← Option.not_isSome_iff_eq_none, isSome_weights_weigh]

/-! ## One loop of edits -/

/-- Every edit of the loop goes through. -/
def GoesThrough (f : Script Point) (h : Host) (n : Nat) (cells : List RealServer) : Prop :=
  ∀ i cell, cells[i]? = some cell → ¬ Blocked f h (n + i) cell

/-- The first edit that does not go through is that of `cell`, at position `i`. -/
structure StopsAt (f : Script Point) (h : Host) (n : Nat) (cells : List RealServer) (i : Nat)
    (cell : RealServer) : Prop where
  entry : cells[i]? = some cell
  blocked : Blocked f h (n + i) cell
  before : ∀ j c, j < i → cells[j]? = some c → ¬ Blocked f h (n + j) c

variable {n : Nat} {cell : RealServer} {todo : List RealServer}

/-- Edits go through one by one. -/
theorem goesThrough_cons :
    GoesThrough f h n (cell :: todo) ↔ ¬ Blocked f h n cell ∧ GoesThrough f h (n + 1) todo := by
  constructor
  · intro hall
    refine ⟨hall 0 cell rfl, ?_⟩
    intro i c hc
    have hnext := hall (i + 1) c hc
    rwa [show n + (i + 1) = n + 1 + i by omega] at hnext
  · rintro ⟨hfirst, hrest⟩ i c hc
    cases i with
    | zero =>
        obtain rfl : cell = c := by simpa using hc
        exact hfirst
    | succ i =>
        rw [show n + (i + 1) = n + 1 + i by omega]
        exact hrest i c hc

/-- An edit that goes through is in front of the one that does not. -/
theorem StopsAt.cons {i : Nat} {c : RealServer} (hfirst : ¬ Blocked f h n cell)
    (hstops : StopsAt f h (n + 1) todo i c) : StopsAt f h n (cell :: todo) (i + 1) c where
  entry := hstops.entry
  blocked := by
    rw [show n + (i + 1) = n + 1 + i by omega]
    exact hstops.blocked
  before := by
    intro j d hj hd
    cases j with
    | zero =>
        obtain rfl : cell = d := by simpa using hd
        exact hfirst
    | succ j =>
        rw [show n + (j + 1) = n + 1 + j by omega]
        exact hstops.before j d (by omega) hd

/-- A loop stops at one place only. -/
theorem StopsAt.unique {i j : Nat} {c d : RealServer} (hi : StopsAt f h n cells i c)
    (hj : StopsAt f h n cells j d) : i = j ∧ c = d := by
  have hij : i = j := by
    rcases Nat.lt_trichotomy i j with hlt | heq | hgt
    · exact absurd hi.blocked (hj.before i c hlt hi.entry)
    · exact heq
    · exact absurd hj.blocked (hi.before j d hgt hj.entry)
  subst hij
  exact ⟨rfl, Option.some.inj (hi.entry.symm.trans hj.entry)⟩

/-- **A loop that ends well** has made every edit. -/
theorem setWeights_ok {u : Unit} :
    (setWeights weight n cells).run f h = (.ok u, t) ↔
      GoesThrough f h n cells ∧ t = h.weigh weight cells := by
  induction cells generalizing n h with
  | nil => simp [setWeights, Prog.pure_ok, GoesThrough]
  | cons cell todo ih =>
      rw [setWeights, Prog.bind_ok, goesThrough_cons]
      constructor
      · rintro ⟨_, s, hedit, hrest⟩
        obtain ⟨hfirst, rfl⟩ := edit_ok.mp hedit
        obtain ⟨hthrough, rfl⟩ := ih.mp hrest
        refine ⟨⟨hfirst, ?_⟩, weigh_weigh todo⟩
        intro i c hc
        exact fun hblocked => hthrough i c hc (blocked_weigh.mpr hblocked)
      · rintro ⟨⟨hfirst, hrest⟩, rfl⟩
        refine ⟨(), h.weigh weight [cell], edit_ok.mpr ⟨hfirst, rfl⟩, ih.mpr ⟨?_, ?_⟩⟩
        · intro i c hc
          exact fun hblocked => hrest i c hc (blocked_weigh.mp hblocked)
        · rw [weigh_weigh, List.singleton_append]

/-- **A loop that fails** has made the edits in front of the one it stopped at. -/
theorem setWeights_error {e : Failure Point}
    (hrun : (setWeights weight n cells).run f h = (.error e, t)) :
    ∃ i cell, StopsAt f h n cells i cell ∧
      t = h.weigh weight (cells.take i ++ torn f (n + i) cell) := by
  induction cells generalizing n h with
  | nil => exact absurd hrun (by simp [setWeights, Prog.pure_error])
  | cons cell todo ih =>
      rw [setWeights, Prog.bind_error] at hrun
      rcases hrun with hedit | ⟨_, s, hedit, hrest⟩
      · obtain ⟨hblocked, rfl⟩ := edit_error hedit
        exact ⟨0, cell, ⟨rfl, hblocked, fun j _ hj => absurd hj (by omega)⟩, rfl⟩
      · obtain ⟨hfirst, rfl⟩ := edit_ok.mp hedit
        obtain ⟨i, c, hstops, rfl⟩ := ih hrest
        have hsame : StopsAt f h (n + 1) todo i c :=
          ⟨hstops.entry, blocked_weigh.mp hstops.blocked,
            fun j d hj hd => fun hb => hstops.before j d hj hd (blocked_weigh.mpr hb)⟩
        refine ⟨i + 1, c, hsame.cons hfirst, ?_⟩
        rw [weigh_weigh, List.take_succ_cons, show n + (i + 1) = n + 1 + i by omega]
        rfl

/-! ## The whole call -/

/-- The choice is made: in the kernel's table, in the map and in the file. -/
structure Made (v : IpvsSpec) (b : Backend) (drain : Bool) (h t : Host) : Prop where
  weights : ∀ c ∈ realServers v b, t.weights c = some (weightFor b drain)
  drained : ∀ m, m ∈ t.drained ↔ if m = b.name then drain = true else m ∈ h.drained
  file : t.file = some (sortedNames t.drained)

/-- A call that succeeds has made the choice, and one that fails has changed nothing. -/
def AllOrNothing (spec : Option Spec) (name : String) (drain : Bool) (f : Script Point)
    (h : Host) : Prop :=
  match (setDrained spec name drain).run f h with
  | (.ok _, t) => ∃ v b, target spec name = .ok (v, b) ∧ Made v b drain h t
  | (.error _, t) => t = h

/-- A call that does all or nothing and fails has changed nothing. -/
theorem AllOrNothing.unchanged {spec : Option Spec} {name : String} {drain : Bool}
    (hall : AllOrNothing spec name drain f h)
    (hfails : (setDrained spec name drain).succeeds f h = false) :
    (setDrained spec name drain).final f h = h := by
  unfold AllOrNothing at hall
  unfold Prog.succeeds at hfails
  unfold Prog.final
  rcases hrun : (setDrained spec name drain).run f h with ⟨_ | u, t⟩
  · rw [hrun] at hall
    exact hall
  · rw [hrun] at hfails
    exact absurd hfails (by simp [Except.isOk, Except.toBool])

/-- What a failing call has done by then was there before: the weight in the services that
it has edited and, when the file is what fails, the choice in the map too. -/
def Harmless (spec : Option Spec) (name : String) (drain : Bool) (f : Script Point)
    (h : Host) : Prop :=
  ∀ v b, target spec name = .ok (v, b) →
    (∀ i cell, StopsAt f h 0 (realServers v b) i cell →
      Weighs (weightFor b drain) ((realServers v b).take i ++ torn f i cell) h) ∧
    (GoesThrough f h 0 (realServers v b) → f .writeDrained ≠ .done →
      Weighs (weightFor b drain) (realServers v b) h ∧ (name ∈ h.drained ↔ drain = true))

/-- The target has the name that was asked for. -/
theorem target_name {spec : Option Spec} {name : String} {v : IpvsSpec} {b : Backend}
    (htarget : target spec name = .ok (v, b)) : b.name = name := by
  unfold target at htarget
  split at htarget
  · exact absurd htarget (by simp)
  · split at htarget
    · exact absurd htarget (by simp)
    · next b' hfound =>
        obtain ⟨-, rfl⟩ := Prod.mk.inj (Except.ok.inj htarget)
        simpa using List.find?_some hfound

/-- What is drained after a call. -/
theorem mem_drainedAfter {name m : String} {drain : Bool} {drained : List String} :
    m ∈ drainedAfter name drain drained ↔ if m = name then drain = true else m ∈ drained := by
  unfold drainedAfter
  cases drain <;> by_cases hm : m = name <;> simp [hm]

/-- The map stays as it is exactly when it has the choice already. -/
theorem drainedAfter_eq_iff {name : String} {drain : Bool} {drained : List String} :
    drainedAfter name drain drained = drained ↔ (name ∈ drained ↔ drain = true) := by
  constructor
  · intro hsame
    have hmem : name ∈ drainedAfter name drain drained ↔
        if name = name then drain = true else name ∈ drained := mem_drainedAfter
    rw [hsame, if_pos rfl] at hmem
    exact hmem
  · intro hchoice
    unfold drainedAfter
    cases drain with
    | true =>
        rw [if_pos rfl, insertName, if_pos (hchoice.mpr rfl)]
    | false =>
        have habsent : name ∉ drained := fun hmem => absurd (hchoice.mp hmem) (by decide)
        rw [if_neg (by decide), eraseName, List.filter_eq_self]
        intro m hm
        have hne : m ≠ name := fun heq => habsent (heq ▸ hm)
        simpa using hne

section Backend

variable {v : IpvsSpec} {b : Backend} {drain : Bool}

/-- The host after the edits and the change of the map. -/
def Host.chosen (v : IpvsSpec) (b : Backend) (drain : Bool) (h : Host) : Host :=
  { h.weigh (weightFor b drain) (realServers v b) with
    drained := drainedAfter b.name drain h.drained }

/-- A call that ends well has set all weights and written the file. -/
theorem drainBackend_ok {u : Unit} :
    (drainBackend v b drain).run f h = (.ok u, t) ↔
      GoesThrough f h 0 (realServers v b) ∧ f .writeDrained = .done ∧
        t = { h.chosen v b drain with
          file := some (sortedNames (drainedAfter b.name drain h.drained)) } := by
  simp only [drainBackend, Prog.bind_ok, setWeights_ok, Prog.update_ok, Prog.read_ok,
    Prog.command_ok, exists_const, exists_and_left, exists_eq_left, and_assoc]
  rfl

/-- A call that fails has set the weights before the one where it stopped, or all of them. -/
theorem drainBackend_error {e : Failure Point}
    (hrun : (drainBackend v b drain).run f h = (.error e, t)) :
    (∃ i cell, StopsAt f h 0 (realServers v b) i cell ∧
      t = h.weigh (weightFor b drain) ((realServers v b).take i ++ torn f i cell)) ∨
    (GoesThrough f h 0 (realServers v b) ∧ f .writeDrained ≠ .done ∧ t = h.chosen v b drain) := by
  unfold drainBackend at hrun
  rcases Prog.bind_error.mp hrun with hedits | ⟨_, s, hedits, hrest⟩
  · left
    obtain ⟨i, cell, hstops, rfl⟩ := setWeights_error hedits
    exact ⟨i, cell, hstops, by rw [Nat.zero_add]⟩
  · right
    obtain ⟨hthrough, rfl⟩ := setWeights_ok.mp hedits
    simp only [Prog.bind_error, Prog.update_ok, Prog.read_ok, Prog.command_error, Prog.update_error,
      Prog.read_error, exists_const, exists_eq_left, false_or] at hrest
    obtain ⟨_, u, ⟨-, rfl⟩, -, hwrite, rfl⟩ := hrest
    exact ⟨hthrough, hwrite, rfl⟩

/-- A call changes nothing where all is set already. -/
theorem chosen_eq_iff :
    h.chosen v b drain = h ↔
      Weighs (weightFor b drain) (realServers v b) h ∧ (b.name ∈ h.drained ↔ drain = true) := by
  rw [← weigh_eq_iff, ← drainedAfter_eq_iff]
  constructor
  · intro hsame
    have hweights : (h.weigh (weightFor b drain) (realServers v b)).weights = h.weights :=
      congrArg (fun s => s.weights) hsame
    have hdrained : drainedAfter b.name drain h.drained = h.drained :=
      congrArg (fun s => s.drained) hsame
    refine ⟨?_, hdrained⟩
    calc h.weigh (weightFor b drain) (realServers v b)
        = { h with weights := (h.weigh (weightFor b drain) (realServers v b)).weights } := rfl
      _ = h := by rw [hweights]
  · rintro ⟨hweigh, hdrained⟩
    rw [Host.chosen, hweigh, hdrained]

/-- A call that gets through has made the choice. -/
theorem made_of_through (hthrough : GoesThrough f h 0 (realServers v b)) :
    Made v b drain h { h.chosen v b drain with
      file := some (sortedNames (drainedAfter b.name drain h.drained)) } where
  weights := by
    intro c hc
    obtain ⟨i, hi⟩ := List.getElem?_of_mem hc
    have hpresent : h.weights c ≠ none := fun hnone => hthrough i c hi (.inl hnone)
    obtain ⟨old, hold⟩ := Option.ne_none_iff_exists'.mp hpresent
    simp [Host.chosen, Host.weigh, hc, hold]
  drained := fun _ => mem_drainedAfter
  file := rfl

end Backend

/-- **A drain is all or nothing exactly when what it leaves behind was there before.**  For
every spec and request, every table and every command or write that fails, a call that
succeeds has set the weight in each service and stored the choice in the map and in the
file; one that fails has changed nothing, if and only if the edits in front of the failing
one, and the choice where the write is what fails, were no change. -/
theorem drain_allOrNothing_iff (spec : Option Spec) (name : String) (drain : Bool) (f : Script Point)
    (h : Host) : AllOrNothing spec name drain f h ↔ Harmless spec name drain f h := by
  unfold AllOrNothing Harmless setDrained
  cases htarget : target spec name with
  | error message => simp [Prog.refuse]
  | ok found =>
      obtain ⟨v, b⟩ := found
      have hname : b.name = name := target_name htarget
      dsimp only
      rcases hrun : (drainBackend v b drain).run f h with ⟨_ | u, t⟩
      · -- the call fails: in its loop, or at the file
        have hfailed := drainBackend_error hrun
        constructor
        · rintro rfl v' b' hsame
          obtain ⟨rfl, rfl⟩ := Prod.mk.inj (Except.ok.inj hsame)
          rcases hfailed with ⟨i, cell, hstops, hleft⟩ | ⟨hthrough, hwrite, hleft⟩
          · refine ⟨?_, fun hall => absurd hstops.blocked (by
              rw [Nat.zero_add]
              simpa using hall i cell hstops.entry)⟩
            intro j c hj
            obtain ⟨rfl, rfl⟩ := hstops.unique hj
            exact weigh_eq_iff.mp hleft.symm
          · refine ⟨fun j c hj => absurd hj.blocked (hthrough j c hj.entry), fun _ _ => ?_⟩
            rw [← hname]
            exact chosen_eq_iff.mp hleft.symm
        · intro hharmless
          obtain ⟨hedits, hsave⟩ := hharmless v b rfl
          rcases hfailed with ⟨i, cell, hstops, rfl⟩ | ⟨hthrough, hwrite, rfl⟩
          · exact weigh_eq_iff.mpr (hedits i cell hstops)
          · have hchoice := hsave hthrough hwrite
            rw [← hname] at hchoice
            exact chosen_eq_iff.mpr hchoice
      · -- the call succeeds: nothing stopped it
        obtain ⟨hthrough, hwrite, rfl⟩ := drainBackend_ok.mp hrun
        constructor
        · rintro - v' b' hsame
          obtain ⟨rfl, rfl⟩ := Prod.mk.inj (Except.ok.inj hsame)
          exact ⟨fun j c hj => absurd hj.blocked (hthrough j c hj.entry),
            fun _ hfails => absurd hwrite hfails⟩
        · exact fun _ => ⟨v, b, rfl, made_of_through hthrough⟩

/-- A director of two backends, with one service for each protocol. -/
def directorSpec : Json Int :=
  .obj [("vip", .str "10.0.0.53/24"), ("router_id", .num 53), ("auth_pass", .str "secret"),
    ("src_ip", .str "10.0.0.2"),
    ("ipvs", .obj [("vip", .str "10.0.0.53"),
      ("backends", .arr [
        .obj [("name", .str "dns-a-1"), ("address", .str "10.0.0.11"), ("port", .num 53),
          ("weight", .num 1)],
        .obj [("name", .str "dns-b-2"), ("address", .str "10.0.0.12"), ("port", .num 53),
          ("weight", .num 1)]])])]

def director : Spec :=
  { disabledSpec with
    enabled := true
    vip := "10.0.0.53/24"
    routerId := 53
    authPass := "secret"
    srcIp := "10.0.0.2"
    ipvs := some {
      enabled := true
      vip := "10.0.0.53"
      ports := [53]
      protocols := ["udp", "tcp"]
      algo := "wlc"
      backends := [⟨"dns-a-1", "10.0.0.11", 53, 1⟩, ⟨"dns-b-2", "10.0.0.12", 53, 1⟩]
      check := ⟨2, 2, 2⟩ } }

/-- The kernel's table as keepalived programs it for `director`. -/
def directorHost : Host where
  weights c :=
    if c.service = "10.0.0.53:53" ∧ c.server ∈ ["10.0.0.11:53", "10.0.0.12:53"] then some 1
    else none
  drained := []
  file := none

/-- The edit of the second service fails: the first one has lost the backend, and the map
and the file do not say so. -/
theorem half_drained :
    ¬ ∀ (raw : Json Int) (spec : Spec) (name : String) (drain : Bool) (f : Script Point)
      (h : Host), decode raw = .ok spec → AllOrNothing (some spec) name drain f h := by
  intro hall
  have hdrain := hall directorSpec director "dns-b-2" true (failingAt (.edit 1)) directorHost
    (by decide +kernel)
  have hsame := hdrain.unchanged (by decide +kernel)
  have hweight := congrArg (fun s => s.weights ⟨"-u", "10.0.0.53:53", "10.0.0.12:53"⟩) hsame
  revert hweight
  decide +kernel

end AdguardAdmin.SetDrained
