import AdguardAdmin.RunLaws
import Mathlib.Data.List.Basic
import Mathlib.Algebra.Order.Ring.Unbundled.Rat
/-!
# The read cache

The compatible API answers its clients out of a small cache.  A read that finds no
fresh entry takes the lock of its key and runs a loader; reads of the same key wait for
that lock and look again.  A write clears the entries.  It does not stop the loaders
that are running, and a loader that ends stores what it read, however long ago it began.

* `overlap` — two loads of one key never run at the same time;
* `served_after_clear` — as long as no load is cut by a clear and still ends well, a
  read that began after a clear is answered by a load that began after it too;
* `late_store_is_served` — one load that ends so is all it takes to break that.
-/

namespace AdguardAdmin.ReadCache

open RunLaws

variable {κ V : Type}

/-! ## Entries, locks and reads -/

/-- What a load left, and how many clears had come before that load began. -/
structure Entry (V : Type) where
  time : ℚ
  value : V
  started : Nat
  deriving DecidableEq

/-- `asyncio.Lock`: whoever finds it taken, or others waiting, waits in turn. -/
structure Lock where
  locked : Bool
  waiters : List Nat
  deriving DecidableEq, Repr

def Lock.free (l : Lock) : Bool := !l.locked && l.waiters.isEmpty

/-- Where a call of `get` stands between two awaits. -/
inductive Phase where
  | waiting
  | loading (started : Nat)
  deriving DecidableEq, Repr

/-- A call of `get`, with how many clears had come before it. -/
structure Read (κ : Type) where
  key : κ
  since : Nat
  phase : Phase
  deriving DecidableEq

/-- A value that a call of `get` returned. -/
structure Answer (V : Type) where
  since : Nat
  started : Nat
  value : V
  deriving DecidableEq

structure Cache (κ V : Type) where
  entries : κ → Option (Entry V)
  locks : κ → Lock
  reads : Nat → Option (Read κ)
  clears : Nat
  answers : List (Answer V)

def empty : Cache κ V where
  entries _ := none
  locks _ := ⟨false, []⟩
  reads _ := none
  clears := 0
  answers := []

/-- What happens between two awaits of the event loop. -/
inductive Event (κ V : Type) where
  | get (i : Nat) (key : κ) (now : ℚ)
  /-- The lock is free and the first waiter goes on. -/
  | resume (i : Nat) (now : ℚ)
  | loaded (i : Nat) (value : V) (now : ℚ)
  /-- The loader raises, or the request is cancelled where it waits. -/
  | failed (i : Nat)
  | clear
  deriving DecidableEq

section Steps

variable [DecidableEq κ] (seconds : Int)

def ttl : ℚ := max 0 seconds

namespace Cache

/-- `_fresh`. -/
def fresh (s : Cache κ V) (key : κ) (now : ℚ) : Option (Entry V) :=
  (s.entries key).filter fun entry => now - entry.time < ttl seconds

/-- A lifetime of zero switches the cache off. -/
def hit (s : Cache κ V) (key : κ) (now : ℚ) : Option (Entry V) :=
  if ttl seconds ≠ 0 then s.fresh seconds key now else none

def setLock (s : Cache κ V) (key : κ) (l : Lock) : Cache κ V :=
  { s with locks := Function.update s.locks key l }

def store (s : Cache κ V) (key : κ) (entry : Entry V) : Cache κ V :=
  { s with entries := Function.update s.entries key (some entry) }

def setRead (s : Cache κ V) (i : Nat) (r : Option (Read κ)) : Cache κ V :=
  { s with reads := Function.update s.reads i r }

/-- The loader of a read begins, with the lock held. -/
def load (s : Cache κ V) (i : Nat) (key : κ) (since : Nat) (waiters : List Nat) : Cache κ V :=
  (s.setLock key ⟨true, waiters⟩).setRead i (some ⟨key, since, .loading s.clears⟩)

def respond (s : Cache κ V) (a : Answer V) : Cache κ V := { s with answers := s.answers ++ [a] }

/-- The first half of `get`, up to where it waits for the lock or for its loader. -/
def get (s : Cache κ V) (i : Nat) (key : κ) (now : ℚ) : Cache κ V :=
  match s.hit seconds key now with
  | some entry => s.respond ⟨s.clears, entry.started, entry.value⟩
  | none =>
      if (s.locks key).free then s.load i key s.clears []
      else
        (s.setLock key { s.locks key with waiters := (s.locks key).waiters ++ [i] }).setRead i
          (some ⟨key, s.clears, .waiting⟩)

/-- A waiter got the lock.  Another request may have filled the entry meanwhile. -/
def resume (s : Cache κ V) (i : Nat) (key : κ) (since : Nat) (now : ℚ) : Cache κ V :=
  match s.hit seconds key now with
  | some entry =>
      ((s.setLock key ⟨false, (s.locks key).waiters.tail⟩).setRead i none).respond
        ⟨since, entry.started, entry.value⟩
  | none => s.load i key since (s.locks key).waiters.tail

/-- The loader returned: its value is stored, whatever was cleared meanwhile. -/
def loaded (s : Cache κ V) (i : Nat) (key : κ) (since started : Nat) (value : V) (now : ℚ) :
    Cache κ V :=
  (((s.store key ⟨now, value, started⟩).setLock key { s.locks key with locked := false }).setRead i
    none).respond ⟨since, started, value⟩

/-- What an exception leaves of the lock. -/
def abandoned (l : Lock) (i : Nat) : Phase → Lock
  | .waiting => { l with waiters := l.waiters.erase i }
  | .loading _ => { l with locked := false }

def step (s : Cache κ V) : Event κ V → Cache κ V
  | .get i key now => if s.reads i = none then s.get seconds i key now else s
  | .resume i now =>
      match s.reads i with
      | some ⟨key, since, .waiting⟩ =>
          if (s.locks key).locked = false ∧ (s.locks key).waiters.head? = some i then
            s.resume seconds i key since now
          else s
      | _ => s
  | .loaded i value now =>
      match s.reads i with
      | some ⟨key, since, .loading started⟩ => s.loaded i key since started value now
      | _ => s
  | .failed i =>
      match s.reads i with
      | some r => (s.setLock r.key (abandoned (s.locks r.key) i r.phase)).setRead i none
      | none => s
  | .clear => { s with entries := fun _ => none, clears := s.clears + 1 }

end Cache

end Steps

/-! ## What the cache promises -/

/-- The loader of read `i` runs for `key`, begun after `started` clears. -/
def Cache.Loading (s : Cache κ V) (i : Nat) (key : κ) (started : Nat) : Prop :=
  ∃ since, s.reads i = some ⟨key, since, .loading started⟩

/-- What a read that began after a clear returns was loaded after that clear, and of the
loaders begun since the last clear at most one runs for each key. -/
structure Prompt (s : Cache κ V) : Prop where
  served : ∀ a ∈ s.answers, a.since ≤ a.started
  single : ∀ key i j, s.Loading i key s.clears → s.Loading j key s.clears → i = j

/-- A load that ends well was not cut by a clear. -/
def Uncut (s : Cache κ V) : Event κ V → Prop
  | .loaded i _ _ => ∀ key started, s.Loading i key started → started = s.clears
  | _ => True

/-- Prompt now, and whatever is read next. -/
def Reliable [DecidableEq κ] (seconds : Int) (s : Cache κ V) : Prop :=
  Prompt s ∧ ∀ i key now, Prompt (s.step seconds (.get i key now))

/-! ## One step -/

section Updates

variable {s : Cache κ V}

@[simp] theorem setRead_locks (i : Nat) (r : Option (Read κ)) :
    (s.setRead i r).locks = s.locks := rfl

@[simp] theorem setRead_reads (i : Nat) (r : Option (Read κ)) (j : Nat) :
    (s.setRead i r).reads j = if j = i then r else s.reads j := by
  simp [Cache.setRead, Function.update_apply]

/-- A read that is there is the one just set, or was there. -/
theorem setRead_cases {i j : Nat} {r : Option (Read κ)} {q : Read κ}
    (h : (s.setRead i r).reads j = some q) :
    (j = i ∧ r = some q) ∨ (j ≠ i ∧ s.reads j = some q) := by
  rw [setRead_reads] at h
  split at h
  · exact .inl ⟨‹_›, h⟩
  · exact .inr ⟨‹_›, h⟩

/-- A hit is an entry. -/
theorem hit_some {seconds : Int} {key : κ} {now : ℚ} {entry : Entry V}
    (h : s.hit seconds key now = some entry) : s.entries key = some entry := by
  unfold Cache.hit Cache.fresh at h
  split at h
  · exact (Option.filter_eq_some_iff.mp h).1
  · cases h

@[simp] theorem setRead_clears (i : Nat) (r : Option (Read κ)) :
    (s.setRead i r).clears = s.clears := rfl

variable [DecidableEq κ]

@[simp] theorem setLock_locks (key : κ) (l : Lock) (k : κ) :
    (s.setLock key l).locks k = if k = key then l else s.locks k := by
  simp [Cache.setLock, Function.update_apply]

@[simp] theorem setLock_reads (key : κ) (l : Lock) : (s.setLock key l).reads = s.reads := rfl

@[simp] theorem setLock_clears (key : κ) (l : Lock) : (s.setLock key l).clears = s.clears := rfl

end Updates

/-- What every run keeps: loads begin after their reads, and whoever loads has the lock. -/
structure Sound (s : Cache κ V) : Prop where
  asked : ∀ i r, s.reads i = some r → r.since ≤ s.clears
  begun : ∀ i r started, s.reads i = some r → r.phase = .loading started →
    r.since ≤ started ∧ started ≤ s.clears
  held : ∀ i r started, s.reads i = some r → r.phase = .loading started →
    (s.locks r.key).locked = true
  single : ∀ key i j a b, s.Loading i key a → s.Loading j key b → i = j

/-- Everything stored and everything returned is as new as it has to be. -/
structure Current (s : Cache κ V) : Prop where
  stored : ∀ key entry, s.entries key = some entry → s.clears ≤ entry.started
  served : ∀ a ∈ s.answers, a.since ≤ a.started

/-- The empty cache is sound. -/
theorem sound_empty : Sound (empty : Cache κ V) := by
  constructor
  · intro i r h
    cases h
  · intro i r started h
    cases h
  · intro i r started h
    cases h
  · intro key i j a b h
    obtain ⟨since, h⟩ := h
    cases h

/-- The empty cache is current. -/
theorem current_empty : Current (empty : Cache κ V) := by
  constructor
  · intro key entry h
    cases h
  · intro a ha
    cases ha

theorem Sound.prompt {s : Cache κ V} (h : Sound s) (hcurrent : Current s) : Prompt s :=
  ⟨hcurrent.served, fun key i j => h.single key i j _ _⟩

/-- Entries and answers play no part in what is sound. -/
theorem Sound.congr {s t : Cache κ V} (h : Sound s) (hreads : t.reads = s.reads)
    (hlocks : t.locks = s.locks) (hclears : s.clears ≤ t.clears) : Sound t := by
  constructor
  · intro i r hr
    exact (h.asked i r (hreads ▸ hr)).trans hclears
  · intro i r started hr hphase
    have := h.begun i r started (hreads ▸ hr) hphase
    omega
  · intro i r started hr hphase
    rw [hlocks]
    exact h.held i r started (hreads ▸ hr) hphase
  · intro key i j a b hi hj
    unfold Cache.Loading at hi hj
    rw [hreads] at hi hj
    exact h.single key i j a b hi hj

/-- Only entries, clears and answers matter for being current. -/
theorem Current.congr {s t : Cache κ V} (h : Current s) (hentries : t.entries = s.entries)
    (hclears : t.clears = s.clears) (hanswers : t.answers = s.answers) : Current t := by
  constructor
  · intro key entry hentry
    rw [hclears]
    exact h.stored key entry (hentries ▸ hentry)
  · intro a ha
    exact h.served a (hanswers ▸ ha)

/-- An answer whose load began after the clears it was asked behind keeps the cache current. -/
theorem Current.respond {s : Cache κ V} (h : Current s) {a : Answer V} (ha : a.since ≤ a.started) :
    Current (s.respond a) := by
  refine ⟨h.stored, fun b hb => ?_⟩
  rcases List.mem_append.mp hb with hb | hb
  · exact h.served b hb
  · rw [List.mem_singleton.mp hb]
    exact ha

section Laws

variable [DecidableEq κ] {seconds : Int} {s : Cache κ V}

/-- A lock that nobody holds is given to a read. -/
theorem Sound.load (h : Sound s) {i : Nat} {key : κ} {since : Nat} {waiters : List Nat}
    (hfree : (s.locks key).locked = false) (hsince : since ≤ s.clears) :
    Sound (s.load i key since waiters) := by
  have hnone : ∀ j q a, s.reads j = some q → q.phase = .loading a → q.key ≠ key := by
    intro j q a hq hphase heq
    have := h.held j q a hq hphase
    rw [heq, hfree] at this
    cases this
  constructor
  · intro j q hq
    rcases setRead_cases hq with ⟨-, hq⟩ | ⟨-, hq⟩
    · cases hq
      exact hsince
    · exact h.asked j q hq
  · intro j q a hq hphase
    rcases setRead_cases hq with ⟨-, hq⟩ | ⟨-, hq⟩
    · cases hq
      cases hphase
      exact ⟨hsince, le_rfl⟩
    · exact h.begun j q a hq hphase
  · intro j q a hq hphase
    rcases setRead_cases hq with ⟨-, hq⟩ | ⟨-, hq⟩
    · cases hq
      simp [Cache.load]
    · have hkey := hnone j q a hq hphase
      have hheld := h.held j q a hq hphase
      simpa [Cache.load, hkey] using hheld
  · intro k j₁ j₂ a b hj₁ hj₂
    obtain ⟨since₁, hj₁⟩ := hj₁
    obtain ⟨since₂, hj₂⟩ := hj₂
    rcases setRead_cases hj₁ with ⟨rfl, hq₁⟩ | ⟨-, hq₁⟩
    · rcases setRead_cases hj₂ with ⟨rfl, -⟩ | ⟨-, hq₂⟩
      · rfl
      · cases hq₁
        exact absurd rfl (hnone j₂ _ b hq₂ rfl)
    · rcases setRead_cases hj₂ with ⟨rfl, hq₂⟩ | ⟨-, hq₂⟩
      · cases hq₂
        exact absurd rfl (hnone j₁ _ a hq₁ rfl)
      · exact h.single k j₁ j₂ a b ⟨since₁, hq₁⟩ ⟨since₂, hq₂⟩

/-- A read ends, or begins to wait, and the lock stays with whoever has it. -/
theorem Sound.setRead (h : Sound s) {i : Nat} {key : κ} {l : Lock} {r : Option (Read κ)}
    (hr : ∀ q, r = some q → q.since ≤ s.clears ∧ q.phase = .waiting)
    (hlock : l.locked = (s.locks key).locked ∨ ∃ a, s.Loading i key a) :
    Sound ((s.setLock key l).setRead i r) := by
  -- the reads that are loading were loading before
  have hold : ∀ j q a, ((s.setLock key l).setRead i r).reads j = some q →
      q.phase = .loading a → j ≠ i ∧ s.reads j = some q := by
    intro j q a hq hphase
    rcases setRead_cases hq with ⟨-, hq⟩ | hq
    · rw [(hr q hq).2] at hphase
      cases hphase
    · exact hq
  constructor
  · intro j q hq
    rcases setRead_cases hq with ⟨-, hq⟩ | ⟨-, hq⟩
    · exact (hr q hq).1
    · exact h.asked j q hq
  · intro j q a hq hphase
    exact h.begun j q a (hold j q a hq hphase).2 hphase
  · intro j q a hq hphase
    obtain ⟨hij, hq⟩ := hold j q a hq hphase
    have hheld := h.held j q a hq hphase
    by_cases hkey : q.key = key
    · rcases hlock with hlock | ⟨b, hi⟩
      · simpa [hkey, hlock] using hkey ▸ hheld
      · -- the lock of `key` was with read `i`
        exact absurd (h.single key j i a b ⟨q.since, by rw [hq, ← hkey, ← hphase]⟩ hi) hij
    · simpa [hkey] using hheld
  · intro k j₁ j₂ a b hj₁ hj₂
    obtain ⟨since₁, hj₁⟩ := hj₁
    obtain ⟨since₂, hj₂⟩ := hj₂
    have hq₁ := (hold j₁ _ a hj₁ rfl).2
    have hq₂ := (hold j₂ _ b hj₂ rfl).2
    exact h.single k j₁ j₂ a b ⟨since₁, hq₁⟩ ⟨since₂, hq₂⟩

/-- Every step keeps the cache sound. -/
theorem sound_step (s : Cache κ V) (e : Event κ V) (h : Sound s) : Sound (s.step seconds e) := by
  cases e with
  | get i key now =>
      simp only [Cache.step, Cache.get]
      split
      · split
        · exact h.congr rfl rfl le_rfl
        · split
          · rename_i hfree
            exact h.load (by grind [Lock.free]) le_rfl
          · exact h.setRead (by grind) (.inl rfl)
      · exact h
  | resume i now =>
      simp only [Cache.step]
      split
      · rename_i key since hread
        split
        · rename_i hfree
          unfold Cache.resume
          split
          · refine (h.setRead (i := i) ?_ (.inl hfree.1.symm)).congr rfl rfl le_rfl
            grind
          · exact h.load hfree.1 (h.asked i _ hread)
        · exact h
      · exact h
  | loaded i value now =>
      simp only [Cache.step]
      split
      · rename_i key since started hread
        exact (h.setRead (by grind) (.inr ⟨started, since, hread⟩)).congr rfl rfl le_rfl
      · exact h
  | failed i =>
      simp only [Cache.step]
      split
      · rename_i r hread
        refine h.setRead (by grind) ?_
        cases hphase : r.phase with
        | waiting => exact .inl rfl
        | loading started =>
            exact .inr ⟨started, r.since, by rw [hread, ← hphase]⟩
      · exact h
  | clear => exact h.congr rfl rfl (Nat.le_succ _)

/-- A new entry that was begun after the last clear keeps it current. -/
theorem Current.store (h : Current s) {key : κ} {entry : Entry V}
    (hentry : s.clears ≤ entry.started) :
    Current (s.store key entry) := by
  refine ⟨fun k e he => ?_, h.served⟩
  replace he : Function.update s.entries key (some entry) k = some e := he
  by_cases hkey : k = key
  · rw [hkey, Function.update_self] at he
    obtain rfl := Option.some.inj he
    exact hentry
  · rw [Function.update_of_ne hkey] at he
    exact h.stored k e he

/-- **Loads of one key never overlap**, whatever was cleared between them. -/
theorem overlap (inputs : List (Event κ V)) :
    Throughout (Cache.step seconds)
      (fun s => ∀ key i j a b, s.Loading i key a → s.Loading j key b → i = j) empty inputs :=
  throughout_mono _ (fun _ h => h.single) (throughout_of_kept _ sound_step sound_empty inputs)

/-- A step that no clear cuts keeps the cache current. -/
theorem current_step {e : Event κ V} (h : Sound s) (hcurrent : Current s) (huncut : Uncut s e) :
    Current (s.step seconds e) := by
  cases e with
  | get i key now =>
      simp only [Cache.step, Cache.get]
      split
      · split
        · rename_i entry hhit
          exact hcurrent.respond (hcurrent.stored key entry (hit_some hhit))
        · split
          · exact hcurrent.congr rfl rfl rfl
          · exact hcurrent.congr rfl rfl rfl
      · exact hcurrent
  | resume i now =>
      simp only [Cache.step]
      split
      · rename_i key since hread
        split
        · unfold Cache.resume
          split
          · rename_i entry hhit
            have hsince : since ≤ s.clears := h.asked i _ hread
            have hstarted := hcurrent.stored key entry (hit_some hhit)
            refine (hcurrent.congr ?_ ?_ ?_).respond (hsince.trans hstarted)
            · rfl
            · rfl
            · rfl
          · exact hcurrent.congr rfl rfl rfl
        · exact hcurrent
      · exact hcurrent
  | loaded i value now =>
      simp only [Cache.step]
      split
      · rename_i key since started hread
        have hsince : since ≤ started := (h.begun i _ started hread rfl).1
        have hnow : started = s.clears := huncut key started ⟨since, hread⟩
        have hstored : Current (s.store key ⟨now, value, started⟩) := hcurrent.store hnow.ge
        refine (hstored.congr ?_ ?_ ?_).respond hsince
        · rfl
        · rfl
        · rfl
      · exact hcurrent
  | failed i =>
      simp only [Cache.step]
      split
      · exact hcurrent.congr rfl rfl rfl
      · exact hcurrent
  | clear =>
      constructor
      · intro key entry hentry
        cases hentry
      · exact hcurrent.served

/-- A load that was cut and still ends well is given to whoever asks next. -/
theorem late_store_is_served (hlife : 0 < seconds) (h : Sound s) {e : Event κ V}
    (hnext : Reliable seconds (s.step seconds e)) : Uncut s e := by
  cases e with
  | loaded i value now =>
      intro key started hloading
      obtain ⟨since, hread⟩ := hloading
      have hbegun := (h.begun i _ started hread rfl).2
      have hlate : s.step seconds (.loaded i value now) =
          s.loaded i key since started value now := by
        simp only [Cache.step, hread]
      rw [hlate] at hnext
      have hfree : (s.loaded i key since started value now).reads i = none := by
        simp [Cache.loaded, Cache.respond]
      have hhit : (s.loaded i key since started value now).hit seconds key now =
          some ⟨now, value, started⟩ := by
        have hpos : 0 < ttl seconds := by
          unfold ttl
          exact lt_max_of_lt_right (by exact_mod_cast hlife)
        have hentry : (s.loaded i key since started value now).entries key =
            some ⟨now, value, started⟩ := Function.update_self ..
        simp [Cache.hit, Cache.fresh, hentry, hpos, hpos.ne']
      have hserved := (hnext.2 i key now).served ⟨s.clears, started, value⟩ (by
        simp only [Cache.step, Cache.get, if_pos hfree, hhit]
        exact List.mem_append_right _ List.mem_cons_self)
      exact le_antisymm hbegun hserved
  | get i key now => trivial
  | resume i now => trivial
  | failed i => trivial
  | clear => trivial

/-! ## Whole runs -/

/-- **The cache is reliable as long as no load is cut.**  A run keeps every read prompt,
and leaves every read that could come next prompt, exactly when no load that a clear
fell into ends well. -/
theorem served_after_clear (hlife : 0 < seconds) (inputs : List (Event κ V)) :
    Throughout (Cache.step seconds) (Reliable seconds) empty inputs ↔
      Along (Cache.step seconds) Uncut empty inputs := by
  constructor
  · intro h
    refine along_of_invariant _ ?_ sound_empty h.2
    intro s e hsound hnext
    exact ⟨late_store_is_served hlife hsound hnext, sound_step s e hsound⟩
  · intro h
    have hkept : Throughout (Cache.step seconds) (fun s => Sound s ∧ Current s) empty inputs := by
      refine throughout_of_invariant _ ?_ ⟨sound_empty, current_empty⟩ h
      intro s e hs huncut
      exact ⟨sound_step s e hs.1, current_step hs.1 hs.2 huncut⟩
    refine throughout_mono _ ?_ hkept
    intro s hs
    refine ⟨hs.1.prompt hs.2, fun i key now => ?_⟩
    exact (sound_step s _ hs.1).prompt (current_step hs.1 hs.2 trivial)

end Laws

/-- The theorem applies to a poll with a clear in it. -/
theorem served_after_clear_poll :
    0 < (5 : Int) ∧ Throughout (Cache.step 5) (Reliable 5) (empty : Cache String Nat)
      [.get 0 "stats" 0, .loaded 0 7 1, .clear, .get 1 "stats" 2] := by
  refine ⟨by decide, (served_after_clear (by decide) _).mpr ?_⟩
  refine ⟨trivial, ?_, trivial, trivial, trivial⟩
  intro key started h
  obtain ⟨since, h⟩ := h
  cases h
  rfl

/-- A write that ends while the statistics are being read. -/
theorem cut_load_is_served :
    ¬ ∀ inputs : List (Event String Nat), Throughout (Cache.step 5) Prompt empty inputs := by
  intro h
  have hlast := throughout_last _ (h [.get 0 "stats" 0, .clear, .loaded 0 7 1, .get 1 "stats" 2])
  have hstale : (1 : Nat) ≤ 0 := hlast.served ⟨1, 0, 7⟩ (by decide +kernel)
  omega

end AdguardAdmin.ReadCache
