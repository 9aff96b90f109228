import Mathlib.Logic.Function.Basic
/-!
# Laws along a run

A run feeds a list of inputs to a step function.  A *law* is a relation between
the state before a step and the input of that step; it holds along a run when it
holds at every step of it.  Two rules carry every result about whole runs:

* `along_congr` — two laws that agree at every reachable step agree along the
  run, so an exact per-step condition lifts to an exact condition on runs;
* `along_of_invariant` — an invariant that holds at the start and is kept by
  every step meeting a condition turns that condition into the law.

A property of states is treated the same way: `Throughout` says that it holds in
every state of a run, and `throughout_iff_along` turns an exact condition on the
step into an exact condition on the run.  `lastAlong` remembers the last thing a
run did of a given kind.

Where a state holds a list of workers of which a step changes one, `single_set` and
`single_append` keep a worker alone at what it does.
-/

namespace RunLaws

variable {σ α : Type} (step : σ → α → σ)

/-- The state after a list of inputs. -/
def after (s : σ) (inputs : List α) : σ :=
  inputs.foldl step s

/-- `law` holds at every step of the run from `s`. -/
def Along (law : σ → α → Prop) : σ → List α → Prop
  | _, [] => True
  | s, a :: rest => law s a ∧ Along law (step s a) rest

@[simp] theorem after_nil (s : σ) : after step s [] = s := rfl

@[simp] theorem after_cons (s : σ) (a : α) (rest : List α) :
    after step s (a :: rest) = after step (step s a) rest := rfl

theorem after_append (s : σ) (first second : List α) :
    after step s (first ++ second) = after step (after step s first) second := by
  simp [after]

@[simp] theorem along_nil (law : σ → α → Prop) (s : σ) : Along step law s [] := trivial

@[simp] theorem along_cons (law : σ → α → Prop) (s : σ) (a : α) (rest : List α) :
    Along step law s (a :: rest) ↔ law s a ∧ Along step law (step s a) rest := Iff.rfl

/-- **Exact conditions lift.**  Laws that are equivalent at every step of every
state are equivalent along every run. -/
theorem along_congr {law cond : σ → α → Prop} (h : ∀ s a, law s a ↔ cond s a)
    (s : σ) (inputs : List α) :
    Along step law s inputs ↔ Along step cond s inputs := by
  induction inputs generalizing s with
  | nil => simp
  | cons a rest ih => rw [along_cons, along_cons, h, ih]

/-- **The run rule.**  An invariant kept by every step that meets `cond`, and
strong enough for `law` there, carries `cond` along a run into `law` along it. -/
theorem along_of_invariant {inv : σ → Prop} {law cond : σ → α → Prop}
    (hstep : ∀ s a, inv s → cond s a → law s a ∧ inv (step s a))
    {s : σ} (hs : inv s) {inputs : List α} (hrun : Along step cond s inputs) :
    Along step law s inputs := by
  induction inputs generalizing s with
  | nil => trivial
  | cons a rest ih =>
      obtain ⟨hcond, hrest⟩ := hrun
      obtain ⟨hlaw, hinv⟩ := hstep s a hs hcond
      exact ⟨hlaw, ih hinv hrest⟩

/-- The invariant of the run rule holds at the end of the run. -/
theorem after_invariant {inv : σ → Prop} {cond : σ → α → Prop}
    (hstep : ∀ s a, inv s → cond s a → inv (step s a))
    {s : σ} (hs : inv s) {inputs : List α} (hrun : Along step cond s inputs) :
    inv (after step s inputs) := by
  induction inputs generalizing s with
  | nil => exact hs
  | cons a rest ih =>
      obtain ⟨hcond, hrest⟩ := hrun
      exact ih (hstep s a hs hcond) hrest

/-- A weaker law holds along every run on which a stronger one does. -/
theorem along_mono {law weaker : σ → α → Prop} (h : ∀ s a, law s a → weaker s a)
    {s : σ} {inputs : List α} (hrun : Along step law s inputs) :
    Along step weaker s inputs := by
  induction inputs generalizing s with
  | nil => trivial
  | cons a rest ih =>
      obtain ⟨hlaw, hrest⟩ := hrun
      exact ⟨h s a hlaw, ih hrest⟩

/-! ## Properties of every state -/

/-- `P` holds in every state of the run from `s`, the first one included. -/
def Throughout (P : σ → Prop) (s : σ) (inputs : List α) : Prop :=
  P s ∧ Along step (fun s a => P (step s a)) s inputs

@[simp] theorem throughout_cons (P : σ → Prop) (s : σ) (a : α) (rest : List α) :
    Throughout step P s (a :: rest) ↔ P s ∧ Throughout step P (step s a) rest := by
  simp [Throughout]

/-- What holds throughout holds after each beginning of the run. -/
theorem throughout_iff_prefixes (P : σ → Prop) (s : σ) (inputs : List α) :
    Throughout step P s inputs ↔
      ∀ before rest, inputs = before ++ rest → P (after step s before) := by
  induction inputs generalizing s with
  | nil =>
      constructor
      · intro h before rest heq
        obtain ⟨rfl, -⟩ := List.append_eq_nil_iff.mp heq.symm
        exact h.1
      · intro h
        exact ⟨h [] [] rfl, trivial⟩
  | cons a tail ih =>
      rw [throughout_cons, ih]
      constructor
      · rintro ⟨hs, htail⟩ before rest heq
        cases before with
        | nil => exact hs
        | cons b before =>
            obtain ⟨rfl, htl⟩ := List.cons.inj heq
            exact htail before rest htl
      · intro h
        exact ⟨h [] (a :: tail) rfl, fun before rest heq => h (a :: before) rest (by rw [heq]; rfl)⟩

/-- **Exact conditions lift under an invariant.**  Two laws that agree wherever an
invariant holds, and of which the first keeps it, agree along the run. -/
theorem along_congr_of_invariant {inv : σ → Prop} {law cond : σ → α → Prop}
    (h : ∀ s a, inv s → (law s a ↔ cond s a)) (hkept : ∀ s a, inv s → law s a → inv (step s a))
    {s : σ} (hs : inv s) (inputs : List α) :
    Along step law s inputs ↔ Along step cond s inputs := by
  induction inputs generalizing s with
  | nil => exact Iff.rfl
  | cons a rest ih =>
      rw [along_cons, along_cons, ← h s a hs]
      constructor
      · rintro ⟨hlaw, hrest⟩
        exact ⟨hlaw, (ih (hkept s a hs hlaw)).mp hrest⟩
      · rintro ⟨hlaw, hrest⟩
        exact ⟨hlaw, (ih (hkept s a hs hlaw)).mpr hrest⟩

/-- **Exact conditions on a step lift to every state of a run.** -/
theorem throughout_iff_along {P : σ → Prop} {cond : σ → α → Prop}
    (h : ∀ s a, P s → (P (step s a) ↔ cond s a)) {s : σ} (hs : P s) (inputs : List α) :
    Throughout step P s inputs ↔ Along step cond s inputs := by
  rw [← along_congr_of_invariant step h (fun _ _ _ hnext => hnext) hs inputs]
  exact and_iff_right hs

/-- An invariant kept by every step that meets `cond` holds in every state of a
run along which `cond` does. -/
theorem throughout_of_invariant {inv : σ → Prop} {cond : σ → α → Prop}
    (hstep : ∀ s a, inv s → cond s a → inv (step s a))
    {s : σ} (hs : inv s) {inputs : List α} (hrun : Along step cond s inputs) :
    Throughout step inv s inputs :=
  ⟨hs, along_of_invariant step (fun s a hi hc => ⟨hstep s a hi hc, hstep s a hi hc⟩) hs hrun⟩

/-- An invariant that every step keeps holds in every state of every run. -/
theorem throughout_of_kept {inv : σ → Prop} (hstep : ∀ s a, inv s → inv (step s a))
    {s : σ} (hs : inv s) (inputs : List α) : Throughout step inv s inputs := by
  induction inputs generalizing s with
  | nil => exact ⟨hs, trivial⟩
  | cons a rest ih => exact (throughout_cons ..).mpr ⟨hs, ih (hstep s a hs)⟩

/-- A law that holds wherever an invariant does holds along every run. -/
theorem along_of_kept {inv : σ → Prop} {law : σ → α → Prop}
    (hstep : ∀ s a, inv s → law s a ∧ inv (step s a)) {s : σ} (hs : inv s) (inputs : List α) :
    Along step law s inputs := by
  induction inputs generalizing s with
  | nil => trivial
  | cons a rest ih =>
      obtain ⟨hlaw, hnext⟩ := hstep s a hs
      exact ⟨hlaw, ih hnext⟩

theorem throughout_mono {P Q : σ → Prop} (h : ∀ s, P s → Q s) {s : σ} {inputs : List α}
    (hrun : Throughout step P s inputs) : Throughout step Q s inputs :=
  ⟨h s hrun.1, along_mono step (fun _ _ => h _) hrun.2⟩

theorem throughout_last {P : σ → Prop} {s : σ} {inputs : List α}
    (hrun : Throughout step P s inputs) : P (after step s inputs) :=
  (throughout_iff_prefixes step P s inputs).mp hrun inputs [] (by simp)

/-- **The log rule.**  Every entry of a log that steps only add to stands in a relation
to the ones before it exactly when each step adds it so. -/
theorem throughout_pairwise_iff {β : Type} {R : β → β → Prop} {log : σ → List β}
    {new : σ → α → Option β} (hlog : ∀ s a, log (step s a) = log s ++ (new s a).toList)
    {s : σ} (hs : log s = []) (inputs : List α) :
    Throughout step (fun s => (log s).Pairwise R) s inputs ↔
      Along step (fun s a => ∀ r, new s a = some r → ∀ q ∈ log s, R q r) s inputs := by
  refine throughout_iff_along step ?_ (by rw [hs]; exact List.Pairwise.nil) inputs
  intro s a hpairs
  rw [hlog, List.pairwise_append]
  cases hnew : new s a with
  | none => simp [hpairs]
  | some r => simp [hpairs]

/-! ## What a run did last -/

variable {β : Type}

/-- The last thing `f` reads off the steps of a run, or `b` when it reads none. -/
def lastAlong (f : σ → α → Option β) : σ → Option β → List α → Option β
  | _, b, [] => b
  | s, b, a :: rest => lastAlong f (step s a) ((f s a).orElse fun _ => b) rest

/-- **The history rule.**  A relation between a state and what was last done that
every step keeps holds between the last state of a run and what the run did last. -/
theorem lastAlong_invariant {f : σ → α → Option β} {inv : σ → Option β → Prop}
    (hstep : ∀ s b a, inv s b → inv (step s a) ((f s a).orElse fun _ => b))
    {s : σ} {b : Option β} (hs : inv s b) (inputs : List α) :
    inv (after step s inputs) (lastAlong step f s b inputs) := by
  induction inputs generalizing s b with
  | nil => exact hs
  | cons a rest ih => exact ih (hstep s b a hs)

/-- What a register and the records of its writers hold in state `t`, started from
`s`, when the last write was `w`. -/
def HoldsLast {ι V : Type} (reg : σ → Option V) (kept : σ → ι → Option V) (s t : σ) :
    Option (ι × V) → Prop
  | none => reg t = reg s ∧ ∀ i, kept t i = none
  | some (i, v) => reg t = some v ∧ kept t i = some v

/-- **The register rule.**  A register and a record of its writers that only the
steps `f` reads a write off change hold what the last write of the run left. -/
theorem holdsLast_after {ι V : Type} [DecidableEq ι] {f : σ → α → Option (ι × V)}
    {reg : σ → Option V} {kept : σ → ι → Option V}
    (hreg : ∀ s a, reg (step s a) = ((f s a).map (·.2)).orElse fun _ => reg s)
    (hkept : ∀ s a i, kept (step s a) i =
      ((f s a).bind fun w => if w.1 = i then some w.2 else none).orElse fun _ => kept s i)
    {s : σ} (hs : ∀ i, kept s i = none) (inputs : List α) :
    HoldsLast reg kept s (after step s inputs) (lastAlong step f s none inputs) := by
  refine lastAlong_invariant step ?_ ⟨rfl, hs⟩ inputs
  intro t b a ht
  cases hf : f t a with
  | some w => exact ⟨by simp [hreg, hf], by simp [hkept, hf]⟩
  | none =>
      have hregister : reg (step t a) = reg t := by simp [hreg, hf]
      have hrecord : ∀ i, kept (step t a) i = kept t i := fun i => by simp [hkept, hf]
      cases b with
      | none => exact ⟨hregister.trans ht.1, fun i => (hrecord i).trans (ht.2 i)⟩
      | some w => exact ⟨hregister.trans ht.1, (hrecord w.1).trans ht.2⟩

/-! ## Steps that touch one cell each -/

/-- **The cell rule.**  When every input works on a cell of its own, a run leaves in
the cell of an input what that input makes of it, and the other cells as they were. -/
theorem after_cells {κ V : Type} [DecidableEq κ] {step : (κ → V) → α → κ → V} {key : α → κ}
    {work : α → V → V}
    {inputs : List α}
    (hstep : ∀ a ∈ inputs, ∀ m, step m a = Function.update m (key a) (work a (m (key a))))
    (hkeys : (inputs.map key).Nodup) (m : κ → V) :
    (∀ a ∈ inputs, after step m inputs (key a) = work a (m (key a))) ∧
      ∀ k, k ∉ inputs.map key → after step m inputs k = m k := by
  induction inputs generalizing m with
  | nil => simp
  | cons b rest ih =>
      rw [List.map_cons, List.nodup_cons] at hkeys
      rw [List.forall_mem_cons] at hstep
      obtain ⟨hcells, hothers⟩ := ih hstep.2 hkeys.2 (step m b)
      have hthis : step m b (key b) = work b (m (key b)) := by rw [hstep.1, Function.update_self]
      have helsewhere : ∀ k, k ≠ key b → step m b k = m k := by
        intro k hk
        rw [hstep.1, Function.update_of_ne hk]
      rw [after_cons]
      refine ⟨List.forall_mem_cons.mpr ⟨?_, fun a ha => ?_⟩, fun k hk => ?_⟩
      · rw [hothers (key b) hkeys.1, hthis]
      · have hne : key a ≠ key b := fun heq => hkeys.1 (heq ▸ List.mem_map_of_mem ha)
        rw [hcells a ha, helsewhere (key a) hne]
      · rw [List.map_cons, List.mem_cons, not_or] at hk
        rw [hothers k hk.2, helsewhere k hk.1]

instance decidableAlong (law : σ → α → Prop) [∀ s a, Decidable (law s a)] :
    ∀ (s : σ) (inputs : List α), Decidable (Along step law s inputs)
  | _, [] => isTrue trivial
  | s, a :: rest =>
      have := decidableAlong law (step s a) rest
      inferInstanceAs (Decidable (law s a ∧ Along step law (step s a) rest))

/-! ## Workers in a list -/

section Workers

variable {β κ : Type} {workers : List β} {P : β → Prop} {g : β → κ}

/-- What a list of workers holds at `j` after worker `k` has become `x`. -/
theorem getElem?_set_cases {k j : Nat} {x y : β} (h : (workers.set k x)[j]? = some y) :
    (j = k ∧ y = x) ∨ (j ≠ k ∧ workers[j]? = some y) := by
  rw [List.getElem?_set] at h
  split at h
  · split at h
    · exact .inl ⟨by omega, (Option.some.inj h).symm⟩
    · cases h
  · exact .inr ⟨by omega, h⟩

/-- What a list of workers holds at `j` after `x` has joined it. -/
theorem getElem?_append_cases {j : Nat} {x y : β} (h : (workers ++ [x])[j]? = some y) :
    (j = workers.length ∧ y = x) ∨ workers[j]? = some y := by
  rw [List.getElem?_append] at h
  split at h
  · exact .inr h
  · obtain ⟨hj, heq⟩ := List.getElem?_eq_some_iff.mp h
    simp only [List.length_singleton] at hj
    exact .inl ⟨by omega, by simpa using heq.symm⟩

/-- What holds of the others and of the one that is set holds of all. -/
theorem forall_mem_set {k : Nat} {x : β} (hx : P x)
    (hold : ∀ (j : Nat) (y : β), j ≠ k → workers[j]? = some y → P y) :
    ∀ y ∈ workers.set k x, P y := by
  intro y hy
  obtain ⟨j, hj⟩ := List.mem_iff_getElem?.mp hy
  rcases getElem?_set_cases hj with ⟨-, heq⟩ | ⟨hjk, hj⟩
  · rw [heq]
    exact hx
  · exact hold j y hjk hj

/-- A property of all workers and of one more holds of them together. -/
theorem forall_mem_append {x : β} (hold : ∀ y ∈ workers, P y) (hx : P x) :
    ∀ y ∈ workers ++ [x], P y := by
  intro y hy
  rcases List.mem_append.mp hy with hy | hy
  · exact hold y hy
  · rw [List.mem_singleton.mp hy]
    exact hx

/-- At most one worker of each group satisfies `P`, also after worker `k` has become `x`,
when the others of its group do not satisfy it if `x` does. -/
theorem single_set {k : Nat} {x : β}
    (hold : ∀ (i j : Nat) (y z : β), i ≠ k → j ≠ k → workers[i]? = some y →
      workers[j]? = some z → P y → P z → g y = g z → i = j)
    (hnew : ∀ (j : Nat) (y : β), j ≠ k → workers[j]? = some y → P x → g y = g x → ¬ P y)
    {i j : Nat} {y z : β} (hi : (workers.set k x)[i]? = some y)
    (hj : (workers.set k x)[j]? = some z) (hy : P y) (hz : P z) (hkey : g y = g z) :
    i = j := by
  rcases getElem?_set_cases hi with ⟨hik, rfl⟩ | ⟨hik, hleft⟩
  · rcases getElem?_set_cases hj with ⟨hjk, -⟩ | ⟨hjk, hright⟩
    · omega
    · exact (hnew j z hjk hright hy hkey.symm hz).elim
  · rcases getElem?_set_cases hj with ⟨hjk, rfl⟩ | ⟨hjk, hright⟩
    · exact (hnew i y hik hleft hz hkey hy).elim
    · exact hold i j y z hik hjk hleft hright hy hz hkey

/-- A worker that does not satisfy `P` may join. -/
theorem single_append {x : β}
    (hold : ∀ (i j : Nat) (y z : β), workers[i]? = some y → workers[j]? = some z → P y → P z →
      g y = g z → i = j)
    (hx : ¬ P x) {i j : Nat} {y z : β} (hi : (workers ++ [x])[i]? = some y)
    (hj : (workers ++ [x])[j]? = some z) (hy : P y) (hz : P z) (hkey : g y = g z) :
    i = j := by
  rcases getElem?_append_cases hi with ⟨-, rfl⟩ | hi
  · exact (hx hy).elim
  · rcases getElem?_append_cases hj with ⟨-, rfl⟩ | hj
    · exact (hx hz).elim
    · exact hold i j y z hi hj hy hz hkey

end Workers

end RunLaws
