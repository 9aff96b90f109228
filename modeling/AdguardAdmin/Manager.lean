import AdguardAdmin.RunLaws
import Mathlib.Logic.Function.Basic
/-!
# The role manager

One role's entry in the manager, with everything that touches it at once: any
number of `Put` calls, the converge loop, `Wake`, and resets of what was applied.
Each locked section, each file write, each send and each receive is one step.  The
converger itself runs outside the lock and is seen only through what it reports
and how it ends.

A life of the process starts with `load`; the files are all that outlives it, so
a restart is a new life on the files of the old one.
-/

namespace AdguardAdmin.Manager

open RunLaws

abbrev Raw := List UInt8

inductive RoleState where
  | absent
  | installing
  | configuring
  | ready
  | stopped
  | error
  deriving DecidableEq, Repr

/-- The status every role shares. -/
structure Common where
  state : RoleState
  desiredHash : String
  appliedHash : String
  version : String
  message : String
  lastChange : String
  deriving DecidableEq, Repr

/-- What a successful converge reports back. -/
structure Outcome where
  version : String
  enabled : Bool
  deriving DecidableEq, Repr

/-- What a role does with the bytes of a spec: `Role.Decode` and `canon.Hash`. -/
structure Reader (Spec : Type) where
  decode : Raw → Except String Spec
  hash : Raw → Except String String

variable {Spec : Type}

/-- The entry's `desiredRaw`, `desiredHash` and `spec`, which are only ever set
together and only from bytes that were decoded and hashed. -/
structure Desired (reader : Reader Spec) where
  raw : Raw
  hash : String
  spec : Spec
  decoded : reader.decode raw = .ok spec
  hashed : reader.hash raw = .ok hash

namespace Desired

variable {reader : Reader Spec}

/-- Decode, then hash: the first thing `Put` does, and what `Load` does. -/
def read (reader : Reader Spec) (raw : Raw) : Except String (Desired reader) :=
  match hd : reader.decode raw with
  | .error e => .error e
  | .ok spec =>
      match hh : reader.hash raw with
      | .error e => .error e
      | .ok hash => .ok ⟨raw, hash, spec, hd, hh⟩

/-- A spec that was read is read again from its text. -/
theorem read_raw (d : Desired reader) : read reader d.raw = .ok d := by
  obtain ⟨raw, hash, spec, hdecoded, hhashed⟩ := d
  unfold read
  split
  · rename_i e he
    rw [hdecoded] at he
    cases he
  · rename_i spec' hs
    obtain rfl : spec = spec' := by
      rw [hdecoded] at hs
      exact Except.ok.inj hs
    split
    · rename_i e he
      rw [hhashed] at he
      cases he
    · rename_i hash' hh
      obtain rfl : hash = hash' := by
        rw [hhashed] at hh
        exact Except.ok.inj hh
      rfl

/-- A decoded config keeps the text it was read from. -/
theorem raw_of_read {raw : Raw} {d : Desired reader} (h : read reader raw = .ok d) :
    d.raw = raw := by
  unfold read at h
  split at h
  · cases h
  · split at h
    · cases h
    · exact (Except.ok.inj h) ▸ rfl

end Desired

variable (reader : Reader Spec)

/-! ## The state -/

/-- Where a `Put` call is. -/
inductive Put where
  | idle
  | decoded (d : Desired reader)
  | written (d : Desired reader)
  | updated (d : Desired reader)
  | returned (d : Desired reader)
  | refused (message : String)

/-- Where the converge loop is.  It starts before its first converge, and so with
its select behind it. -/
inductive Loop where
  | selecting
  | locking
  | locked
  | converging (d : Desired reader)
  | recording (c : Common)
  | exited

/-- The role's two files: `desired/<role>.json` and `status/<role>.json`. -/
structure Disk where
  desired : Option Raw
  status : Option Common

structure Entry where
  desired : Option (Desired reader)
  common : Common
  wake : Bool
  loop : Loop reader
  resetHolds : Bool
  puts : Nat → Put reader
  resets : List Common
  disk : Disk
  /-- History: the hash the last converge took with its snapshot. -/
  snapshotHash : Option String

variable {reader}

/-- `e.desiredHash`, empty when there is no desired spec. -/
def hashOf (desired : Option (Desired reader)) : String := (desired.map (·.hash)).getD ""

def Entry.desiredHash (s : Entry reader) : String := hashOf s.desired

/-- `NewManager` and `Load`: the desired spec is restored if its bytes are still
accepted, the applied hash, version and date from the status file. -/
def load (reader : Reader Spec) (disk : Disk) : Entry reader :=
  let desired := disk.desired.bind fun raw => (Desired.read reader raw).toOption
  { desired := desired
    common :=
      { state := if desired.isSome then .installing else .absent
        desiredHash := hashOf desired
        appliedHash := (disk.status.map (·.appliedHash)).getD ""
        version := (disk.status.map (·.version)).getD ""
        message := ""
        lastChange := (disk.status.map (·.lastChange)).getD "" }
    wake := false
    loop := .locking
    resetHolds := false
    puts := fun _ => .idle
    resets := []
    disk := disk
    snapshotHash := none }

/-! ## The steps -/

inductive Event where
  /-- `Put` is called: the bytes are decoded and hashed. -/
  | put (i : Nat) (raw : Raw)
  /-- `WriteFileAtomic` of the desired file; it renames or leaves the file alone. -/
  | writeDesired (i : Nat) (result : Except String Unit)
  /-- The section of `Put` under the manager's lock. -/
  | update (i : Nat)
  /-- The non-blocking send at the end of `Put`. -/
  | signal (i : Nat)
  | wake
  /-- The three cases of the loop's select. -/
  | receive
  | tick
  | done
  | lock
  | snapshot
  | report (state : RoleState) (message : String)
  /-- The final update, at the time `now`. -/
  | finish (result : Except String Outcome) (now : String)
  | record (ok : Bool)
  | tryLock
  | unlock
  | resetApplied
  | recordReset (c : Common) (ok : Bool)

namespace Common

/-- What the locked section of `Put` does to the status. -/
def want (c : Common) (hash : String) : Common :=
  if c.appliedHash = hash then { c with desiredHash := hash }
  else { c with desiredHash := hash, state := .installing, message := "" }

def report (c : Common) (state : RoleState) (message : String) : Common :=
  { c with state := state, message := message }

/-- The final update of a converge on the spec with this hash. -/
def finish (c : Common) (hash : String) (now : String) : Except String Outcome → Common
  | .error message => { c with state := .error, message := message }
  | .ok out =>
      { c with
        lastChange := if c.appliedHash = hash then c.lastChange else now
        appliedHash := hash
        version := out.version
        message := ""
        state := if out.enabled then .ready else .stopped }

def reset (c : Common) : Common :=
  { c with appliedHash := "", version := "", message := "", state := .installing }

end Common

def Disk.writeDesired (disk : Disk) (raw : Raw) : Disk := { disk with desired := some raw }

def Disk.writeStatus (disk : Disk) (c : Common) (ok : Bool) : Disk :=
  if ok then { disk with status := some c } else disk

namespace Entry

def setPut (s : Entry reader) (i : Nat) (p : Put reader) : Entry reader :=
  { s with puts := Function.update s.puts i p }

def step (s : Entry reader) : Event → Entry reader
  | .put i raw =>
      match s.puts i with
      | .idle =>
          match Desired.read reader raw with
          | .error message => s.setPut i (.refused message)
          | .ok d => s.setPut i (.decoded d)
      | _ => s
  | .writeDesired i result =>
      match s.puts i, result with
      | .decoded d, .ok () => { s.setPut i (.written d) with disk := s.disk.writeDesired d.raw }
      | .decoded _, .error message => s.setPut i (.refused message)
      | _, _ => s
  | .update i =>
      match s.puts i with
      | .written d =>
          { s.setPut i (.updated d) with desired := some d, common := s.common.want d.hash }
      | _ => s
  | .signal i =>
      match s.puts i with
      | .updated d => { s.setPut i (.returned d) with wake := true }
      | _ => s
  | .wake => { s with wake := true }
  | .receive =>
      match s.loop, s.wake with
      | .selecting, true => { s with wake := false, loop := .locking }
      | _, _ => s
  | .tick =>
      match s.loop with
      | .selecting => { s with loop := .locking }
      | _ => s
  | .done =>
      match s.loop with
      | .selecting => { s with loop := .exited }
      | _ => s
  | .lock =>
      match s.loop, s.resetHolds with
      | .locking, false => { s with loop := .locked }
      | _, _ => s
  | .snapshot =>
      match s.loop with
      | .locked =>
          -- without a spec the converge returns at once
          { s with
            loop := s.desired.elim .selecting .converging
            snapshotHash := some s.desiredHash }
      | _ => s
  | .report state message =>
      match s.loop with
      | .converging _ => { s with common := s.common.report state message }
      | _ => s
  | .finish result now =>
      match s.loop with
      | .converging d =>
          let c := s.common.finish d.hash now result
          { s with common := c, loop := .recording c }
      | _ => s
  | .record ok =>
      match s.loop with
      | .recording c => { s with disk := s.disk.writeStatus c ok, loop := .selecting }
      | _ => s
  | .tryLock =>
      match s.loop with
      | .locked | .converging _ | .recording _ => s
      | _ => { s with resetHolds := true }
  | .unlock => { s with resetHolds := false }
  | .resetApplied => { s with common := s.common.reset, resets := s.common.reset :: s.resets }
  | .recordReset c ok =>
      if c ∈ s.resets then { s with disk := s.disk.writeStatus c ok, resets := s.resets.erase c }
      else s

end Entry

end AdguardAdmin.Manager
