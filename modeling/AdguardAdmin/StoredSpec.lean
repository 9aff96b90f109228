import AdguardAdmin.RoleStatus
/-!
# The desired spec across a restart

`Put` writes the desired file first and updates memory afterwards, and no lock
covers both.  Two calls can write the file in one order and update memory in the
other.

`survives_iff` gives the exact schedules after which file and memory agree once all
calls have returned, so that `load` brings back the spec and the hash that were
reported last.
-/

namespace AdguardAdmin.Manager

open RunLaws

variable {Spec : Type} {reader : Reader Spec}

namespace Put

/-- What the call has left in the desired file. -/
def onDisk : Put reader → Option Raw
  | .written d | .updated d | .returned d => some d.raw
  | _ => none

/-- What the call has stored in memory. -/
def inMemory : Put reader → Option Raw
  | .updated d | .returned d => some d.raw
  | _ => none

/-- The call has not begun or is over. -/
def Over : Put reader → Prop
  | .idle | .returned _ | .refused _ => True
  | _ => False

/-- A call that is over has written to disk what it has put into memory. -/
theorem Over.onDisk_eq {p : Put reader} (h : p.Over) : p.onDisk = p.inMemory := by
  cases p with
  | written d => exact absurd h id
  | _ => rfl

end Put

/-- The rename of the desired file: which call, and the bytes. -/
def fileWrite (s : Entry reader) : Event → Option (Nat × Raw)
  | .writeDesired i (.ok ()) =>
      match s.puts i with
      | .decoded d => some (i, d.raw)
      | _ => none
  | _ => none

/-- The update of the desired spec in memory: which call, and the bytes. -/
def memoryUpdate (s : Entry reader) : Event → Option (Nat × Raw)
  | .update i =>
      match s.puts i with
      | .written d => some (i, d.raw)
      | _ => none
  | _ => none

/-! ## What one step does to file and memory -/

/-- A step changes the file by what it writes. -/
theorem step_desiredFile (s : Entry reader) (e : Event) :
    (s.step e).disk.desired = ((fileWrite s e).map (·.2)).orElse fun _ => s.disk.desired := by
  cases e with
  | put i raw =>
      simp only [Entry.step]
      split
      · split <;> rfl
      · rfl
  | writeDesired i result =>
      cases result <;> cases hi : s.puts i <;>
        simp [Entry.step, fileWrite, hi, Entry.setPut, Disk.writeDesired]
  | record ok => cases hl : s.loop <;> cases ok <;> simp [Entry.step, fileWrite, hl, Disk.writeStatus]
  | recordReset c ok =>
      simp only [Entry.step]
      split
      · cases ok <;> rfl
      · rfl
  | wake | unlock | resetApplied => rfl
  | _ =>
      simp only [Entry.step]
      split <;> rfl

/-- After a step the desired spec is what the step put in memory, if it did. -/
theorem step_desired (s : Entry reader) (e : Event) :
    (s.step e).desired.map (·.raw) =
      ((memoryUpdate s e).map (·.2)).orElse fun _ => s.desired.map (·.raw) := by
  cases e with
  | put i raw =>
      simp only [Entry.step]
      split
      · split <;> rfl
      · rfl
  | update i => cases hi : s.puts i <;> simp [Entry.step, memoryUpdate, hi]
  | wake | unlock | resetApplied => rfl
  | _ =>
      simp only [Entry.step]
      split <;> rfl

/-- A call that moves without touching its records leaves those of every call. -/
theorem records_setPut {s : Entry reader} {i : Nat} {p : Put reader}
    (hdisk : p.onDisk = (s.puts i).onDisk) (hmemory : p.inMemory = (s.puts i).inMemory) (j : Nat) :
    ((s.setPut i p).puts j).onDisk = (s.puts j).onDisk ∧
      ((s.setPut i p).puts j).inMemory = (s.puts j).inMemory := by
  by_cases hji : j = i
  · subst hji
    simp [Entry.setPut, hdisk, hmemory]
  · simp [Entry.setPut, hji]

/-- **What one step does to the calls.**  It renames the file of one call, updates
memory for one call, or leaves both records of every call. -/
theorem step_puts (s : Entry reader) (e : Event) :
    (∃ i d, s.puts i = .decoded d ∧ fileWrite s e = some (i, d.raw) ∧ memoryUpdate s e = none ∧
        (s.step e).puts = Function.update s.puts i (.written d)) ∨
      (∃ i d, s.puts i = .written d ∧ fileWrite s e = none ∧ memoryUpdate s e = some (i, d.raw) ∧
        (s.step e).puts = Function.update s.puts i (.updated d)) ∨
      (fileWrite s e = none ∧ memoryUpdate s e = none ∧
        ∀ j, ((s.step e).puts j).onDisk = (s.puts j).onDisk ∧
          ((s.step e).puts j).inMemory = (s.puts j).inMemory) := by
  cases e with
  | put i raw =>
      refine Or.inr (Or.inr ⟨rfl, rfl, fun j => ?_⟩)
      cases hi : s.puts i with
      | idle =>
          simp only [Entry.step, hi]
          split <;> exact records_setPut (by rw [hi]; rfl) (by rw [hi]; rfl) j
      | _ => simp [Entry.step, hi]
  | writeDesired i result =>
      cases hi : s.puts i with
      | decoded d =>
          cases result with
          | ok =>
              exact Or.inl
                ⟨i, d, hi, by simp [fileWrite, hi], rfl, by simp [Entry.step, hi, Entry.setPut]⟩
          | error message =>
              refine Or.inr (Or.inr ⟨rfl, rfl, fun j => ?_⟩)
              simp only [Entry.step, hi]
              exact records_setPut (by rw [hi]; rfl) (by rw [hi]; rfl) j
      | _ =>
          refine Or.inr (Or.inr ?_)
          cases result <;> simp [Entry.step, hi, fileWrite, memoryUpdate]
  | update i =>
      cases hi : s.puts i with
      | written d =>
          exact Or.inr (Or.inl
            ⟨i, d, hi, rfl, by simp [memoryUpdate, hi], by simp [Entry.step, hi, Entry.setPut]⟩)
      | _ => exact Or.inr (Or.inr (by simp [Entry.step, hi, fileWrite, memoryUpdate]))
  | signal i =>
      refine Or.inr (Or.inr ⟨rfl, rfl, fun j => ?_⟩)
      cases hi : s.puts i with
      | updated d =>
          simp only [Entry.step, hi]
          exact records_setPut (p := .returned d) (by rw [hi]; rfl) (by rw [hi]; rfl) j
      | _ => simp [Entry.step, hi]
  | wake | unlock | resetApplied => exact Or.inr (Or.inr ⟨rfl, rfl, fun j => ⟨rfl, rfl⟩⟩)
  | _ =>
      refine Or.inr (Or.inr ⟨rfl, rfl, fun j => ?_⟩)
      simp only [Entry.step]
      split <;> exact ⟨rfl, rfl⟩

/-- A call has written the file when the step has. -/
theorem step_onDisk (s : Entry reader) (e : Event) (j : Nat) :
    ((s.step e).puts j).onDisk =
      ((fileWrite s e).bind fun w => if w.1 = j then some w.2 else none).orElse
        fun _ => (s.puts j).onDisk := by
  rcases step_puts s e with ⟨i, d, -, hwrite, -, hputs⟩ | ⟨i, d, hi, hnone, -, hputs⟩ |
    ⟨hnone, -, hkept⟩
  · rw [hputs, hwrite]
    by_cases hji : j = i
    · subst hji
      simp [Put.onDisk]
    · simp [hji, Ne.symm hji]
  · rw [hputs, hnone]
    by_cases hji : j = i
    · subst hji
      simp [Put.onDisk, hi]
    · simp [hji]
  · rw [(hkept j).1, hnone]
    rfl

/-- After a step a put is in memory when it was, or when the step put it there. -/
theorem step_inMemory (s : Entry reader) (e : Event) (j : Nat) :
    ((s.step e).puts j).inMemory =
      ((memoryUpdate s e).bind fun w => if w.1 = j then some w.2 else none).orElse
        fun _ => (s.puts j).inMemory := by
  rcases step_puts s e with ⟨i, d, hi, -, hnone, hputs⟩ | ⟨i, d, -, -, hupdate, hputs⟩ |
    ⟨-, hnone, hkept⟩
  · rw [hputs, hnone]
    by_cases hji : j = i
    · subst hji
      simp [Put.inMemory, hi]
    · simp [hji]
  · rw [hputs, hupdate]
    by_cases hji : j = i
    · subst hji
      simp [Put.inMemory]
    · simp [hji, Ne.symm hji]
  · rw [(hkept j).2, hnone]
    rfl

/-! ## Memory and what a restart reads -/

/-- The hash in memory is that of the spec. -/
theorem step_desiredHash (s : Entry reader) (e : Event)
    (h : s.common.desiredHash = s.desiredHash) :
    (s.step e).common.desiredHash = (s.step e).desiredHash := by
  cases e with
  | put i raw =>
      simp only [Entry.step]
      split
      · split <;> exact h
      · exact h
  | update i =>
      simp only [Entry.step]
      split
      · unfold Common.want
        split <;> rfl
      · exact h
  | finish result now =>
      cases result <;> (simp only [Entry.step]; split <;> exact h)
  | wake | unlock | resetApplied => exact h
  | _ =>
      simp only [Entry.step]
      split <;> exact h

/-- The common status shows the hash of the desired spec, in every life. -/
theorem desiredHash_shown (disk : Disk) (events : List Event) :
    (after Entry.step (load reader disk) events).common.desiredHash =
      (after Entry.step (load reader disk) events).desiredHash :=
  throughout_last Entry.step (throughout_of_kept Entry.step step_desiredHash rfl events)

/-- The desired file holds the spec in memory, and a restart restores that spec and
the hash that was reported. -/
def Survives (s : Entry reader) : Prop :=
  s.disk.desired = s.desired.map (·.raw) ∧ (load reader s.disk).desired = s.desired ∧
    (load reader s.disk).common.desiredHash = s.common.desiredHash

/-- The file alone decides: a restart reads back what its bytes decoded to. -/
theorem survives_iff_file {s : Entry reader} (h : s.common.desiredHash = s.desiredHash) :
    Survives s ↔ s.disk.desired = s.desired.map (·.raw) := by
  refine ⟨fun hs => hs.1, fun hfile => ?_⟩
  have hloaded : (load reader s.disk).desired = s.desired := by
    cases hd : s.desired with
    | none => simp [load, hfile, hd]
    | some d => simp [load, hfile, hd, Desired.read_raw, Except.toOption]
  have hhash : (load reader s.disk).common.desiredHash = s.common.desiredHash := by
    rw [h, Entry.desiredHash, ← hloaded]
    rfl
  exact ⟨hfile, hloaded, hhash⟩

/-- The bytes found at the start, if any, are ones the role still accepts. -/
def LoadAccepts (reader : Reader Spec) (disk : Disk) : Prop :=
  disk.desired.all fun raw => (Desired.read reader raw).toOption.isSome

/-- A restart reads what is on disk exactly when the load accepts it. -/
theorem loaded_iff_accepts (disk : Disk) :
    disk.desired = (load reader disk).desired.map (·.raw) ↔ LoadAccepts reader disk := by
  cases hraw : disk.desired with
  | none => simp [load, LoadAccepts, hraw]
  | some raw =>
      cases hread : Desired.read reader raw with
      | error e => simp [load, LoadAccepts, hraw, hread, Except.toOption]
      | ok d => simp [load, LoadAccepts, hraw, hread, Except.toOption, Desired.raw_of_read hread]

/-! ## The order of writes and updates -/

/-- The call that wrote the file last is the call that updated memory last, or both
brought the same bytes; and if no call did either, the file found at the start is
still accepted. -/
def LastWriterUpdatesLast (reader : Reader Spec) (disk : Disk) (events : List Event) : Prop :=
  match lastAlong Entry.step fileWrite (load reader disk) none events,
      lastAlong Entry.step memoryUpdate (load reader disk) none events with
  | some (i, written), some (j, updated) => i = j ∨ written = updated
  | none, none => LoadAccepts reader disk
  | _, _ => False

/-- **The desired spec survives a restart, exactly when the last writer updates
last.**  Once every call is over, the desired file holds the spec in memory, and
loading it restores that spec and the reported hash, if and only if the call whose
file write came last is also the one whose update of memory came last, up to calls
that bring the same bytes. -/
theorem survives_iff (disk : Disk) (events : List Event)
    (hover : ∀ i, ((after Entry.step (load reader disk) events).puts i).Over) :
    Survives (after Entry.step (load reader disk) events) ↔
      LastWriterUpdatesLast reader disk events := by
  have hfile : HoldsLast (fun s : Entry reader => s.disk.desired) (fun s i => (s.puts i).onDisk)
      (load reader disk) (after Entry.step (load reader disk) events)
      (lastAlong Entry.step fileWrite (load reader disk) none events) :=
    holdsLast_after Entry.step step_desiredFile step_onDisk (fun _ => rfl) events
  have hmemory : HoldsLast (fun s : Entry reader => s.desired.map (·.raw))
      (fun s i => (s.puts i).inMemory)
      (load reader disk) (after Entry.step (load reader disk) events)
      (lastAlong Entry.step memoryUpdate (load reader disk) none events) :=
    holdsLast_after Entry.step step_desired step_inMemory (fun _ => rfl) events
  rw [survives_iff_file (desiredHash_shown disk events)]
  unfold LastWriterUpdatesLast
  generalize after Entry.step (load reader disk) events = s at hfile hmemory hover
  have hboth : ∀ i, (s.puts i).onDisk = (s.puts i).inMemory := fun i => (hover i).onDisk_eq
  split
  · rename_i i written j updated hw hu
    rw [hw] at hfile
    rw [hu] at hmemory
    have hdisk : s.disk.desired = some written := hfile.1
    have hdesired : s.desired.map (·.raw) = some updated := hmemory.1
    rw [hdisk, hdesired]
    constructor
    · intro heq
      exact .inr (Option.some.inj heq)
    · rintro (rfl | rfl)
      · exact hfile.2.symm.trans ((hboth i).trans hmemory.2)
      · rfl
  · rename_i hw hu
    rw [hw] at hfile
    rw [hu] at hmemory
    have hdisk : s.disk.desired = disk.desired := hfile.1
    have hdesired : s.desired.map (·.raw) = (load reader disk).desired.map (·.raw) := hmemory.1
    rw [hdisk, hdesired]
    exact loaded_iff_accepts disk
  · -- a call that is over has written exactly if it has updated
    rename_i hnotsome hnotnone
    refine iff_of_false ?_ id
    cases hw : lastAlong Entry.step fileWrite (load reader disk) none events with
    | none =>
        cases hu : lastAlong Entry.step memoryUpdate (load reader disk) none events with
        | none => exact absurd hu (hnotnone hw)
        | some u =>
            rw [hw] at hfile
            rw [hu] at hmemory
            have hcontra := (hfile.2 u.1).symm.trans ((hboth u.1).trans hmemory.2)
            cases hcontra
    | some w =>
        cases hu : lastAlong Entry.step memoryUpdate (load reader disk) none events with
        | none =>
            rw [hw] at hfile
            rw [hu] at hmemory
            have hcontra := hfile.2.symm.trans ((hboth w.1).trans (hmemory.2 w.1))
            cases hcontra
        | some u => exact absurd hu (hnotsome w.1 w.2 u.1 u.2 hw)

/-- Two calls that are under way together, the second of which writes and updates last. -/
def together : List Event :=
  [.put 0 [97], .put 1 [98], .writeDesired 0 (.ok ()), .writeDesired 1 (.ok ()), .update 0,
    .update 1, .signal 0, .signal 1]

/-- Two calls at a time, one after the other in both orders, survive. -/
theorem two_calls_survive :
    (after Entry.step (load plainReader ⟨none, none⟩) together).disk.desired = some [98] ∧
      Survives (after Entry.step (load plainReader ⟨none, none⟩) together) := by
  have hover : ∀ i, ((after Entry.step (load plainReader ⟨none, none⟩) together).puts i).Over := by
    intro i
    rcases i with _ | _ | i <;> trivial
  exact ⟨rfl, (survives_iff ⟨none, none⟩ together hover).mpr (.inl rfl)⟩

/-- The first call writes first and updates last. -/
def crossed : List Event :=
  [.put 0 [97], .put 1 [98], .writeDesired 0 (.ok ()), .writeDesired 1 (.ok ()), .update 1,
    .signal 1, .update 0, .signal 0]

/-- Of two calls the older one's spec may be the one on disk. -/
theorem stored_spec_is_the_older :
    ¬ ∀ (disk : Disk) (events : List Event),
      (∀ i, ((after Entry.step (load plainReader disk) events).puts i).Over) →
        Survives (after Entry.step (load plainReader disk) events) := by
  intro h
  have hover : ∀ i, ((after Entry.step (load plainReader ⟨none, none⟩) crossed).puts i).Over := by
    intro i
    rcases i with _ | _ | i <;> trivial
  have hfile := (h ⟨none, none⟩ crossed hover).1
  revert hfile
  decide +kernel

end AdguardAdmin.Manager
