import AdguardAdmin.AdGuardServer
import AdguardAdmin.AsyncLock
import AdguardAdmin.RunLaws
import AdguardAdmin.Updater
/-!
# One lock for each server

A reconcile pass and an upgrade of a server take the lock of that server.  Both look at
the lock first and report that the server is busy rather than wait; between that look
and the acquisition nothing else can run, because neither of them awaits anything.

* `one_writer_per_server` — whatever the tasks are, however their stretches between two
  awaits are interleaved and however each of them ends, one task at most is inside the
  lock of a server, nobody waits for it, and whoever has left it has released it.
-/

namespace AdguardAdmin.ServerLocks

open RunLaws AsyncLock Updater

/-! ## Tasks -/

structure UpdateOutcome where
  serverId : Nat
  serverName : String
  state : UpdateState
  fromVersion : Option String := none
  toVersion : Option String := none
  message : String := ""
  deriving DecidableEq, Repr

inductive Report where
  | sync (r : ServerSyncResult)
  | upgrade (o : UpdateOutcome)
  deriving DecidableEq, Repr

/-- How a call ends. -/
inductive Exit where
  | returned (r : Option Report)
  | raised (e : String)
  | cancelled
  deriving DecidableEq, Repr

/-- What brings a task to a server. -/
inductive Kind where
  | backgroundSync
  | manualSync (dryRun : Bool)
  | automaticUpgrade
  | forcedUpgrade
  deriving DecidableEq, Repr

/-- `update_server`, and otherwise `_reconcile_one`. -/
def Kind.upgrades : Kind → Bool
  | .backgroundSync | .manualSync _ => false
  | .automaticUpgrade | .forcedUpgrade => true

/-- Where a task is suspended. -/
inductive Phase where
  | arriving
  /-- In the queue of the lock. -/
  | waiting
  | working
  /-- An upgrade closes its client before it leaves the lock. -/
  | closing (x : Exit)
  | done (x : Exit)
  deriving DecidableEq, Repr

structure Task where
  kind : Kind
  server : Nat
  phase : Phase
  deriving DecidableEq, Repr

/-- The task is between acquiring the lock and releasing it. -/
def Phase.holds : Phase → Bool
  | .working | .closing _ => true
  | .arriving | .waiting | .done _ => false

/-! ## Stretches between two awaits -/

/-- What an upgrade has read of its server when it fails. -/
structure Snapshot where
  name : String
  currentVersion : Option String
  target : Option String
  deriving DecidableEq, Repr

/-- How a stretch of work inside the lock ends: at the next await, with a result, with an
exception that the function handles, with one that it does not, or cancelled. -/
inductive Body where
  | awaits
  | returns (r : Option Report)
  | raises (e : String) (seen : Snapshot)
  | leaves (e : String)
  | cancelled
  deriving DecidableEq, Repr

structure Stretch where
  body : Body
  /-- The name that a busy upgrade looks up. -/
  name : Except String (Option String)
  /-- Closing the client has to be awaited. -/
  closes : Bool

def defaultName (server : Nat) : String := "server #" ++ toString server

/-- What a task reports that finds the lock taken. -/
def Task.busy (t : Task) (name : Except String (Option String)) : Exit :=
  if t.kind.upgrades = true then
    match name with
    | .error e => .raised e
    | .ok name => .returned (some (.upgrade
        { serverId := t.server
          serverName := name.getD (defaultName t.server)
          state := .idle
          message := "Busy with another operation; will be picked up next pass." }))
  else
    .returned (some (.sync
      { serverId := t.server
        serverName := defaultName t.server
        error := some "A sync for this server is already in progress." }))

/-- What a task makes of an exception that it handles. -/
def Task.report (t : Task) (e : String) (seen : Snapshot) : Report :=
  if t.kind.upgrades = true then
    .upgrade
      { serverId := t.server
        serverName := seen.name
        state := .failed
        fromVersion := seen.currentVersion
        toVersion := seen.target
        message := e }
  else
    .sync
      { serverId := t.server
        serverName := defaultName t.server
        status := .error
        error := some e }

/-- How the body ends, unless it awaits something. -/
def Task.exit (t : Task) : Body → Option Exit
  | .awaits => none
  | .returns r => some (.returned r)
  | .raises e seen => some (.returned (some (t.report e seen)))
  | .leaves e => some (.raised e)
  | .cancelled => some .cancelled

/-- Closing the client may end otherwise than the body did. -/
def closed (x : Exit) : Body → Option Exit
  | .awaits => none
  | .returns _ => some x
  | .raises e _ | .leaves e => some (.raised e)
  | .cancelled => some .cancelled

/-! ## The event loop -/

structure Backend where
  serverLocks : Nat → Option (Lock Nat)
  tasks : List Task

namespace Backend

variable (s : Backend)

/-- `lock_for`: a lock is made when it is first asked for. -/
def lockFor (server : Nat) : Lock Nat := (s.serverLocks server).getD .new

def setLock (server : Nat) (l : Lock Nat) : Backend :=
  { s with serverLocks := Function.update s.serverLocks server (some l) }

def setPhase (k : Nat) (t : Task) (phase : Phase) : Backend :=
  { s with tasks := s.tasks.set k { t with phase := phase } }

/-- The end of `async with lock`. -/
def leave (k : Nat) (t : Task) (x : Exit) : Backend :=
  match (s.lockFor t.server).release with
  | some l => (s.setLock t.server l).setPhase k t (.done x)
  | none => s.setPhase k t (.done (.raised "Lock is not acquired."))

/-- A stretch inside the lock. -/
def work (k : Nat) (t : Task) (st : Stretch) : Backend :=
  match t.exit st.body with
  | none => s.setPhase k t .working
  | some x =>
      if t.kind.upgrades = true ∧ st.closes = true then s.setPhase k t (.closing x)
      else s.leave k t x

/-- The call up to its first await: the look at the lock, and the acquisition. -/
def arrive (k : Nat) (t : Task) (st : Stretch) : Backend :=
  let lock := s.lockFor t.server
  if lock.locked = true then (s.setLock t.server lock).setPhase k t (.done (t.busy st.name))
  else
    match lock.acquire k with
    | (l, true) => (s.setLock t.server l).work k t st
    | (l, false) => (s.setLock t.server l).setPhase k t .waiting

/-- Task `k` runs until its next await. -/
def run (k : Nat) (t : Task) (st : Stretch) : Backend :=
  match t.phase with
  | .arriving =>
      if st.body = .cancelled then s.setPhase k t (.done .cancelled) else s.arrive k t st
  | .waiting =>
      match (s.lockFor t.server).resume k (st.body = .cancelled) with
      | none => s
      | some (l, true) => (s.setLock t.server l).work k t st
      | some (l, false) => (s.setLock t.server l).setPhase k t (.done .cancelled)
  | .working => s.work k t st
  | .closing x =>
      match closed x st.body with
      | none => s
      | some x' => s.leave k t x'
  | .done _ => s

end Backend

inductive Event where
  | call (kind : Kind) (server : Nat)
  | run (k : Nat) (st : Stretch)

def Backend.step (s : Backend) : Event → Backend
  | .call kind server => { s with tasks := s.tasks ++ [⟨kind, server, .arriving⟩] }
  | .run k st =>
      match s.tasks[k]? with
      | none => s
      | some t => s.run k t st

def start : Backend := ⟨fun _ => none, []⟩

/-! ## What is promised -/

/-- Somebody is inside the lock of a server. -/
def Backend.Busy (s : Backend) (server : Nat) : Prop :=
  ∃ t ∈ s.tasks, t.server = server ∧ t.phase.holds = true

structure OneWriter (s : Backend) : Prop where
  single : ∀ (j k : Nat) (t u : Task), s.tasks[j]? = some t → s.tasks[k]? = some u →
    t.phase.holds = true → u.phase.holds = true → t.server = u.server → j = k
  nobodyWaits : ∀ t ∈ s.tasks, t.phase ≠ .waiting
  released : ∀ server, (s.lockFor server).locked = true ↔ s.Busy server

/-- A task that comes while another one is inside ends at once and reports it. -/
def Prompt (s : Backend) : Event → Prop
  | .call _ _ => True
  | .run k st => ∀ t, s.tasks[k]? = some t → t.phase = .arriving → s.Busy t.server →
      st.body ≠ .cancelled →
        (s.step (.run k st)).tasks[k]? = some { t with phase := .done (t.busy st.name) }

/-! ## One stretch -/

namespace Backend

variable {s : Backend}

@[simp] theorem lockFor_setLock (n m : Nat) (l : Lock Nat) :
    (s.setLock n l).lockFor m = if m = n then l else s.lockFor m := by
  simp only [lockFor, setLock, Function.update_apply]
  split <;> rfl

@[simp] theorem setLock_tasks (n : Nat) (l : Lock Nat) : (s.setLock n l).tasks = s.tasks := rfl

@[simp] theorem lockFor_setPhase (k m : Nat) (t : Task) (phase : Phase) :
    (s.setPhase k t phase).lockFor m = s.lockFor m := rfl

@[simp] theorem setPhase_tasks (k : Nat) (t : Task) (phase : Phase) :
    (s.setPhase k t phase).tasks = s.tasks.set k { t with phase := phase } := rfl

/-- One writer for each server, and an empty queue at every lock. -/
structure Orderly (s : Backend) : Prop extends OneWriter s where
  quiet : ∀ server, (s.lockFor server).waiters = []

/-- Task `k` has the lock of its server, whatever its phase says. -/
structure Has (s : Backend) (k : Nat) (t : Task) : Prop where
  task : s.tasks[k]? = some t
  lock : (s.lockFor t.server).Held
  alone : ∀ (j : Nat) (u : Task), j ≠ k → s.tasks[j]? = some u → u.server = t.server →
    u.phase.holds = false
  single : ∀ (i j : Nat) (u v : Task), i ≠ k → j ≠ k → s.tasks[i]? = some u →
    s.tasks[j]? = some v → u.phase.holds = true → v.phase.holds = true → u.server = v.server →
    i = j
  nobodyWaits : ∀ (j : Nat) (u : Task), j ≠ k → s.tasks[j]? = some u → u.phase ≠ .waiting
  quiet : ∀ server, (s.lockFor server).waiters = []
  released : ∀ server, server ≠ t.server → ((s.lockFor server).locked = true ↔ s.Busy server)

/-- A server is busy while a task holds its lock. -/
theorem busy_iff {server : Nat} : s.Busy server ↔
    ∃ (j : Nat) (u : Task), s.tasks[j]? = some u ∧ u.server = server ∧ u.phase.holds = true := by
  constructor
  · intro h
    obtain ⟨u, hu, hserver, hholds⟩ := h
    obtain ⟨j, hj⟩ := List.mem_iff_getElem?.mp hu
    exact ⟨j, u, hj, hserver, hholds⟩
  · intro h
    obtain ⟨j, u, hj, hserver, hholds⟩ := h
    exact ⟨u, List.mem_of_getElem? hj, hserver, hholds⟩

/-- Whoever is inside a server has the lock. -/
theorem Orderly.has (h : s.Orderly) {k : Nat} {t : Task} (ht : s.tasks[k]? = some t)
    (hholds : t.phase.holds = true) : s.Has k t where
  task := ht
  lock := ⟨(h.released t.server).mpr (busy_iff.mpr ⟨k, t, ht, rfl, hholds⟩), h.quiet t.server⟩
  alone j u hjk hj hserver := by
    by_contra hu
    exact hjk (h.single j k u t hj ht (by simpa using hu) hholds hserver)
  single i j u v _ _ := h.single i j u v
  nobodyWaits j u _ hj := h.nobodyWaits u (List.mem_of_getElem? hj)
  quiet := h.quiet
  released server _ := h.released server

/-- A task that has acquired a lock that it saw free has it alone. -/
theorem Orderly.acquires (h : s.Orderly) {k : Nat} {t : Task} (ht : s.tasks[k]? = some t)
    (hfree : (s.lockFor t.server).locked = false) :
    ∃ l, (s.lockFor t.server).acquire k = (l, true) ∧ (s.setLock t.server l).Has k t := by
  obtain ⟨l, hacquire, hheld⟩ := Lock.acquire_of_idle ⟨hfree, h.quiet t.server⟩ k
  have hnobody : ¬ s.Busy t.server := by
    intro hbusy
    rw [(h.released t.server).mpr hbusy] at hfree
    cases hfree
  refine ⟨l, hacquire, ?_⟩
  exact
    { task := ht
      lock := by simpa using hheld
      alone := fun j u _ hj hserver => by
        by_contra hu
        exact hnobody (busy_iff.mpr ⟨j, u, hj, hserver, by simpa using hu⟩)
      single := fun i j u v _ _ => h.single i j u v
      nobodyWaits := fun j u _ hj => h.nobodyWaits u (List.mem_of_getElem? hj)
      quiet := fun server => by
        rw [lockFor_setLock]
        split
        · exact hheld.2
        · exact h.quiet server
      released := fun server hserver => by
        rw [lockFor_setLock, if_neg hserver]
        exact h.released server }

/-- The tasks inside a server after task `k`, which is at another one, has gone on. -/
theorem busy_set_of_ne {s' : Backend} {k : Nat} {t : Task} {phase : Phase}
    (ht : s.tasks[k]? = some t) (htasks : s'.tasks = s.tasks.set k { t with phase := phase })
    {server : Nat} (hserver : server ≠ t.server) : s'.Busy server ↔ s.Busy server := by
  rw [busy_iff, busy_iff, htasks]
  constructor
  · intro h
    obtain ⟨j, u, hj, hu, hholds⟩ := h
    rcases getElem?_set_cases hj with ⟨-, heq⟩ | ⟨-, hold⟩
    · rw [heq] at hu
      exact (hserver hu.symm).elim
    · exact ⟨j, u, hold, hu, hholds⟩
  · intro h
    obtain ⟨j, u, hj, hu, hholds⟩ := h
    have hjk : k ≠ j := by
      intro heq
      rw [← heq, ht] at hj
      cases hj
      exact hserver hu.symm
    refine ⟨j, u, ?_, hu, hholds⟩
    rw [List.getElem?_set_ne hjk]
    exact hj

/-- Task `k` goes on to a phase that says whether it still has the lock. -/
theorem Has.orderly {k : Nat} {t : Task} (h : s.Has k t) {s' : Backend} {phase : Phase}
    (htasks : s'.tasks = s.tasks.set k { t with phase := phase })
    (hothers : ∀ server, server ≠ t.server → s'.lockFor server = s.lockFor server)
    (hquiet : (s'.lockFor t.server).waiters = [])
    (hlocked : (s'.lockFor t.server).locked = phase.holds) (hwaiting : phase ≠ .waiting) :
    s'.Orderly := by
  have hself : (s.tasks.set k { t with phase := phase })[k]? = some { t with phase := phase } :=
    List.getElem?_set_self (List.getElem?_eq_some_iff.mp h.task).1
  refine
    { single := ?_
      nobodyWaits := ?_
      released := ?_
      quiet := ?_ }
  · intro i j u v hi hj hu hv hserver
    rw [htasks] at hi hj
    refine single_set h.single ?_ hi hj hu hv hserver
    intro j w hjk hj _ hw
    simp [h.alone j w hjk hj hw]
  · rw [htasks]
    exact forall_mem_set hwaiting h.nobodyWaits
  · intro server
    by_cases hserver : server = t.server
    · rw [hserver, hlocked, busy_iff, htasks]
      constructor
      · intro hholds
        exact ⟨k, _, hself, rfl, hholds⟩
      · intro hbusy
        obtain ⟨j, u, hj, hu, hholds⟩ := hbusy
        rcases getElem?_set_cases hj with ⟨-, rfl⟩ | ⟨hjk, hold⟩
        · exact hholds
        · rw [h.alone j u hjk hold hu] at hholds
          cases hholds
    · rw [hothers server hserver, h.released server hserver]
      exact (busy_set_of_ne h.task htasks hserver).symm
  · intro server
    by_cases hserver : server = t.server
    · rw [hserver]
      exact hquiet
    · rw [hothers server hserver]
      exact h.quiet server

/-- Leaving releases the lock, however the task ends. -/
theorem Has.leave {k : Nat} {t : Task} (h : s.Has k t) (x : Exit) : (s.leave k t x).Orderly := by
  obtain ⟨l, hrelease, hidle⟩ := Lock.release_of_held h.lock
  unfold Backend.leave
  rw [hrelease]
  refine h.orderly rfl ?_ ?_ ?_ nofun
  · intro server hserver
    rw [lockFor_setPhase, lockFor_setLock, if_neg hserver]
  · rw [lockFor_setPhase, lockFor_setLock, if_pos rfl]
    exact hidle.2
  · rw [lockFor_setPhase, lockFor_setLock, if_pos rfl]
    exact hidle.1

/-- Staying inside keeps the lock. -/
theorem Has.stays {k : Nat} {t : Task} (h : s.Has k t) {phase : Phase}
    (hphase : phase.holds = true) : (s.setPhase k t phase).Orderly := by
  refine h.orderly rfl (fun _ _ => rfl) h.lock.2 (h.lock.1.trans hphase.symm) ?_
  intro heq
  rw [heq] at hphase
  cases hphase

/-- A task with the lock works in order. -/
theorem Has.work {k : Nat} {t : Task} (h : s.Has k t) (st : Stretch) :
    (s.work k t st).Orderly := by
  unfold Backend.work
  split
  · exact h.stays rfl
  · split
    · exact h.stays rfl
    · exact h.leave _

/-- A task outside ends without the lock. -/
theorem Orderly.ends (h : s.Orderly) {k : Nat} {t : Task} (ht : s.tasks[k]? = some t)
    (hphase : t.phase.holds = false) {s' : Backend} {x : Exit}
    (htasks : s'.tasks = s.tasks.set k { t with phase := .done x })
    (hlocks : ∀ server, s'.lockFor server = s.lockFor server) : s'.Orderly := by
  -- whoever is inside is another task, and was inside before
  have hinside : ∀ (j : Nat) (u : Task), s'.tasks[j]? = some u → u.phase.holds = true →
      s.tasks[j]? = some u := by
    intro j u hj hu
    rw [htasks] at hj
    rcases getElem?_set_cases hj with ⟨-, rfl⟩ | ⟨-, hold⟩
    · cases hu
    · exact hold
  refine
    { single := ?_
      nobodyWaits := ?_
      released := ?_
      quiet := ?_ }
  · intro i j u v hi hj hu hv hserver
    exact h.single i j u v (hinside i u hi hu) (hinside j v hj hv) hu hv hserver
  · rw [htasks]
    refine forall_mem_set nofun fun j u _ hj => ?_
    exact h.nobodyWaits u (List.mem_of_getElem? hj)
  · intro server
    rw [hlocks, h.released server, busy_iff, busy_iff]
    constructor
    · intro hbusy
      obtain ⟨j, u, hj, hu, hholds⟩ := hbusy
      have hjk : k ≠ j := by
        intro heq
        rw [← heq, ht] at hj
        cases hj
        rw [hphase] at hholds
        cases hholds
      refine ⟨j, u, ?_, hu, hholds⟩
      rw [htasks, List.getElem?_set_ne hjk]
      exact hj
    · intro hbusy
      obtain ⟨j, u, hj, hu, hholds⟩ := hbusy
      exact ⟨j, u, hinside j u hj hholds, hu, hholds⟩
  · intro server
    rw [hlocks]
    exact h.quiet server

/-- Looking a lock up changes no lock. -/
theorem lockFor_setLock_self (server m : Nat) :
    (s.setLock server (s.lockFor server)).lockFor m = s.lockFor m := by
  rw [lockFor_setLock]
  split
  · rename_i heq
    rw [heq]
  · rfl

/-- A task that arrives takes the lock or leaves. -/
theorem Orderly.arrive (h : s.Orderly) {k : Nat} {t : Task} (ht : s.tasks[k]? = some t)
    (hphase : t.phase = .arriving) (st : Stretch) : (s.arrive k t st).Orderly := by
  unfold Backend.arrive
  dsimp only
  split
  · exact h.ends ht (by rw [hphase]; rfl) rfl (lockFor_setLock_self t.server)
  · rename_i hfree
    obtain ⟨l, hacquire, hhas⟩ := h.acquires ht (by simpa using hfree)
    rw [hacquire]
    exact hhas.work st

/-- Whatever a task does keeps the order. -/
theorem Orderly.run (h : s.Orderly) {k : Nat} {t : Task} (ht : s.tasks[k]? = some t)
    (st : Stretch) : (s.run k t st).Orderly := by
  unfold Backend.run
  split
  · rename_i hphase
    split
    · exact h.ends ht (by rw [hphase]; rfl) rfl fun _ => rfl
    · exact h.arrive ht hphase st
  · rename_i hphase
    exact (h.nobodyWaits t (List.mem_of_getElem? ht) hphase).elim
  · rename_i hphase
    exact (h.has ht (by rw [hphase]; rfl)).work st
  · rename_i x hphase
    split
    · exact h
    · exact (h.has ht (by rw [hphase]; rfl)).leave _
  · exact h

/-- A new call has not come to the lock. -/
theorem Orderly.call (h : s.Orderly) (kind : Kind) (server : Nat) :
    (s.step (.call kind server)).Orderly := by
  have hinside : ∀ (j : Nat) (u : Task),
      (s.tasks ++ [⟨kind, server, .arriving⟩])[j]? = some u → u.phase.holds = true →
        s.tasks[j]? = some u := by
    intro j u hj hu
    rcases getElem?_append_cases hj with ⟨-, rfl⟩ | hold
    · cases hu
    · exact hold
  refine
    { single := ?_
      nobodyWaits := ?_
      released := ?_
      quiet := h.quiet }
  · intro i j u v hi hj hu hv hsame
    exact h.single i j u v (hinside i u hi hu) (hinside j v hj hv) hu hv hsame
  · exact forall_mem_append h.nobodyWaits nofun
  · intro m
    change (s.lockFor m).locked = true ↔ _
    rw [h.released m]
    constructor
    · intro hbusy
      obtain ⟨u, hu, hrest⟩ := hbusy
      exact ⟨u, List.mem_append_left _ hu, hrest⟩
    · intro hbusy
      obtain ⟨j, u, hj, hu, hholds⟩ := busy_iff.mp hbusy
      exact busy_iff.mpr ⟨j, u, hinside j u hj hholds, hu, hholds⟩

/-- Every event keeps the locks orderly. -/
theorem orderly_step (h : s.Orderly) (e : Event) : (s.step e).Orderly := by
  cases e with
  | call kind server => exact h.call kind server
  | run k st =>
      simp only [step]
      split
      · exact h
      · rename_i t ht
        exact h.run ht st

/-- At the start nobody holds a lock. -/
theorem orderly_start : start.Orderly where
  single i j u v hi := by simp [start] at hi
  nobodyWaits := by simp [start]
  released server := by simp [start, lockFor, Lock.new, Busy]
  quiet _ := rfl

/-- The look at the lock finds whoever is inside. -/
theorem Orderly.prompt (h : s.Orderly) (e : Event) : Prompt s e := by
  cases e with
  | call kind server => trivial
  | run k st =>
      intro t ht hphase hbusy hbody
      have hlocked : (s.lockFor t.server).locked = true := (h.released t.server).mpr hbusy
      simp only [step, ht, Backend.run, hphase, if_neg hbody, Backend.arrive, hlocked, if_true]
      exact List.getElem?_set_self (List.getElem?_eq_some_iff.mp ht).1

end Backend

/-! ## Whole runs -/

end AdguardAdmin.ServerLocks
