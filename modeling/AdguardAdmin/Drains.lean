import AdguardAdmin.RunLaws
import AdguardAdmin.KeepalivedSpec
import AdguardAdmin.DnsdistSpec
import Mathlib.Data.List.Sort
import Mathlib.Logic.Function.Basic
/-!
# Drained backends

Both balancers keep the names an operator has drained in a map behind a lock, in
`drained.json` beside their configuration, and in the live balancer: dnsdist marks
the server down, IPVS sets its weight to 0 on every service.

`SetDrained` calls the balancer, then changes the map under the lock, then writes
the file with the lock released.  `reapplyDrains` at the end of a converge takes a
snapshot of the map and works through it with the lock released.  Each call to the
balancer, each locked section and each file write is one step here, and requests,
a converge, the balancer's own changes and restarts interleave freely.
-/

namespace AdguardAdmin.Drains

open RunLaws

/-- What the two balancers do differently: the specs under which a converge reaches
`reapplyDrains`, those under which `SetDrained` is served, and the entries of the
live balancer one backend stands for, in the order in which they are called. -/
structure Balancer (Spec Cell : Type) where
  reapplies : Spec → Bool
  manages : Spec → Bool
  names : Spec → List String
  cells : Spec → String → List Cell

/-- dnsdist is told by server name. -/
def dnsdist : Balancer Dnsdist.Spec String where
  reapplies s := s.enabled
  manages _ := true
  names s := s.backends.map (·.name)
  cells _ name := [name]

/-- A real server of the kernel's table, as `ipvsadm -e` names it. -/
structure RealServer where
  flag : String
  service : String
  server : String
  deriving DecidableEq, Repr

/-- The entries `setWeight` edits: one for each port and protocol. -/
def realServers (v : Keepalived.IpvsSpec) (b : Keepalived.Backend) : List RealServer :=
  v.ports.flatMap fun port => v.protocols.map fun proto =>
    { flag := if proto = "tcp" then "-t" else "-u"
      service := GoText.joinHostPort v.vip (toString port)
      server := GoText.joinHostPort b.address (toString b.port) }

def ipvs : Balancer Keepalived.Spec RealServer where
  reapplies s := s.ipvsOn
  manages s := s.ipvsOn
  names s := (s.ipvs.map (·.backends)).getD [] |>.map (·.name)
  cells s name :=
    match s.ipvs with
    | none => []
    | some v =>
        match v.backends.find? (·.name = name) with
        | none => []
        | some b => realServers v b

variable {Spec Cell : Type}

/-! ## The state -/

/-- Where a `SetDrained` request is. -/
inductive Request (Spec Cell : Type) where
  | idle
  | calling (spec : Spec) (name : String) (drain : Bool) (todo : List Cell)
  | recorded (names : List String) (version : Nat)
  | returned
  | failed
  deriving DecidableEq, Repr

/-- What `reapplyDrains` does for one name of its snapshot. -/
inductive Task (Cell : Type) where
  | hold (name : String) (cell : Cell)
  | prune (name : String)
  deriving DecidableEq, Repr

inductive Pass (Spec Cell : Type) where
  | none
  | started (spec : Spec)
  | reapplying (todo : List (Task Cell))
  deriving DecidableEq, Repr

/-- `loaded` is the configuration the running balancer was started with; `held` are
its entries that a drain has set down and nothing has set back since.  The two
versions count, for the statements only, the locked sections of requests and tell
which of them the file is from. -/
structure State (Spec Cell : Type) where
  drained : List String
  file : Option (List String)
  loaded : Option Spec
  held : Cell → Bool
  requests : Nat → Request Spec Cell
  pass : Pass Spec Cell
  version : Nat
  fileVersion : Nat

/-- The set `New` reads from `drained.json`; a missing file holds no names. -/
def stored (file : Option (List String)) : List String := file.getD []

/-- A new role instance beside a balancer that does not run. -/
def start (file : Option (List String)) : State Spec Cell where
  drained := stored file
  file := file
  loaded := none
  held := fun _ => false
  requests := fun _ => .idle
  pass := .none
  version := 0
  fileVersion := 0

/-! ## The steps -/

inductive Event (Spec Cell : Type) where
  /-- `SetDrained` is called. -/
  | request (i : Nat) (spec : Spec) (name : String) (drain : Bool)
  /-- Its next call to the balancer. -/
  | call (i : Nat) (ok : Bool)
  /-- Its locked section. -/
  | record (i : Nat)
  /-- Its write of `drained.json`. -/
  | write (i : Nat) (ok : Bool)
  | converge (spec : Spec)
  /-- A converge ends before it reaches its drains. -/
  | abort
  /-- `reapplyDrains` copies the map. -/
  | snapshot
  /-- The next task of `reapplyDrains`. -/
  | reapply (ok : Bool)
  /-- The balancer is started on a configuration, or stopped. -/
  | reload (loaded : Option Spec)
  /-- The balancer sets an entry back by itself, as keepalived does when a check
  changes its mind. -/
  | rewrite (cell : Cell)
  /-- The agent restarts. -/
  | restart
  deriving DecidableEq, Repr

def insertName (name : String) (drained : List String) : List String :=
  if name ∈ drained then drained else name :: drained

def eraseName (name : String) (drained : List String) : List String := drained.filter (· ≠ name)

@[simp] theorem mem_insertName {m name : String} {drained : List String} :
    m ∈ insertName name drained ↔ m = name ∨ m ∈ drained := by
  unfold insertName
  split
  · rename_i h
    constructor
    · exact .inr
    · rintro (rfl | hm)
      · exact h
      · exact hm
  · exact List.mem_cons

@[simp] theorem mem_eraseName {m name : String} {drained : List String} :
    m ∈ eraseName name drained ↔ m ∈ drained ∧ m ≠ name := by
  simp [eraseName]

/-- `sort.Strings` of the map's keys. -/
def sortedNames (drained : List String) : List String := drained.insertionSort (· ≤ ·)

@[simp] theorem mem_sortedNames {m : String} {drained : List String} :
    m ∈ sortedNames drained ↔ m ∈ drained := List.mem_insertionSort _

variable [DecidableEq Cell] (b : Balancer Spec Cell)

/-- The entries of the running balancer. -/
def Balancer.present (loaded : Option Spec) (cell : Cell) : Bool :=
  loaded.any fun spec => (b.names spec).any fun name => cell ∈ b.cells spec name

/-- What `reapplyDrains` has to do for the names of its snapshot. -/
def Balancer.tasks (spec : Spec) (names : List String) : List (Task Cell) :=
  names.flatMap fun name =>
    if name ∈ b.names spec then (b.cells spec name).map (.hold name) else [.prune name]

namespace State

/-- `setDown`, or weight 0: an entry the balancer does not have stays absent. -/
def hold (s : State Spec Cell) (cell : Cell) : State Spec Cell :=
  if b.present s.loaded cell then { s with held := Function.update s.held cell true } else s

/-- `setAuto`, or the weight of the spec. -/
def release (s : State Spec Cell) (cell : Cell) : State Spec Cell :=
  { s with held := Function.update s.held cell false }

def setRequest (s : State Spec Cell) (i : Nat) (r : Request Spec Cell) : State Spec Cell :=
  { s with requests := Function.update s.requests i r }

def prune (s : State Spec Cell) (name : String) : State Spec Cell :=
  { s with drained := eraseName name s.drained }

/-- The map after the locked section of a request. -/
def drainedAfter (s : State Spec Cell) (name : String) (drain : Bool) : List String :=
  if drain then insertName name s.drained else eraseName name s.drained

/-- A request that the restart cuts off has not returned to its caller. -/
def cutOff : Request Spec Cell → Request Spec Cell
  | .calling .. | .recorded .. => .failed
  | r => r

def step (s : State Spec Cell) : Event Spec Cell → State Spec Cell
  | .request i spec name drain =>
      match s.requests i with
      | .idle =>
          if b.manages spec ∧ name ∈ b.names spec then
            s.setRequest i (.calling spec name drain (b.cells spec name))
          else s.setRequest i .failed
      | _ => s
  | .call i ok =>
      match s.requests i with
      | .calling spec name drain (cell :: todo) =>
          if ok then
            (if drain then s.hold b cell else s.release cell).setRequest i
              (.calling spec name drain todo)
          else s.setRequest i .failed
      | _ => s
  | .record i =>
      match s.requests i with
      | .calling _ name drain [] =>
          let drained := s.drainedAfter name drain
          { s.setRequest i (.recorded (sortedNames drained) (s.version + 1)) with
            drained := drained
            version := s.version + 1 }
      | _ => s
  | .write i ok =>
      match s.requests i with
      | .recorded names version =>
          if ok then
            { s.setRequest i .returned with file := some names, fileVersion := version }
          else s.setRequest i .failed
      | _ => s
  | .converge spec =>
      match s.pass with
      | .none => { s with pass := .started spec }
      | _ => s
  | .abort =>
      match s.pass with
      | .started _ => { s with pass := .none }
      | _ => s
  | .snapshot =>
      match s.pass with
      | .started spec =>
          if b.reapplies spec then
            { s with pass := .reapplying (b.tasks spec (sortedNames s.drained)) }
          else { s with pass := .none }
      | _ => s
  | .reapply ok =>
      match s.pass with
      | .reapplying [] => { s with pass := .none }
      | .reapplying (.hold _ cell :: todo) =>
          if ok then { s.hold b cell with pass := .reapplying todo } else { s with pass := .none }
      | .reapplying (.prune name :: todo) => { s.prune name with pass := .reapplying todo }
      | _ => s
  | .reload loaded => { s with loaded := loaded, held := fun _ => false }
  | .rewrite cell => s.release cell
  | .restart =>
      { s with
        drained := stored s.file
        requests := fun i => cutOff (s.requests i)
        pass := .none
        fileVersion := s.version }

end State

end AdguardAdmin.Drains
