/-!
# Programs whose commands may fail

A program acts on a host state `σ`.  The points at which the outside world may
refuse to cooperate are named by `ι`, and a *script* fixes beforehand how the
operation at each point ends; a theorem about every script is therefore a
theorem about every combination of failures.  A failure ends the program but
keeps the state it had reached.

The inversion lemmas (`bind_ok`, `command_ok`, …) read a successful execution
backwards; the rules of `Ends` go forwards, with one postcondition for the executions
that end well and one for those that fail.
-/

namespace Faulty

/-- How a scripted operation ends: it takes effect, it has no effect, or it
reports a failure after having taken part of its effect. -/
inductive Outcome where
  | done
  | failed
  | torn
  deriving DecidableEq, Repr

/-- Why a program stopped: it refused to go on, or the operation at a named
point failed. -/
inductive Failure (ι : Type) where
  | refused (message : String)
  | command (point : ι)
  deriving DecidableEq, Repr

/-- Which operations fail in one execution. -/
abbrev Script (ι : Type) := ι → Outcome

/-- Nothing fails. -/
def allDone {ι : Type} : Script ι := fun _ => .done

/-- Only the operation at one point fails. -/
def failingAt {ι : Type} [DecidableEq ι] (point : ι) : Script ι :=
  fun p => if p = point then .failed else .done

/-- A program over `σ` with failure points `ι`. -/
structure Prog (ι σ α : Type) where
  run : Script ι → σ → Except (Failure ι) α × σ

variable {ι σ α β : Type}

namespace Prog

/-- Run both parts in order; a failure of the first one is final. -/
def andThen (x : Prog ι σ α) (k : α → Prog ι σ β) : Prog ι σ β where
  run f s :=
    match x.run f s with
    | (.ok a, t) => (k a).run f t
    | (.error e, t) => (.error e, t)

instance : Monad (Prog ι σ) where
  pure a := ⟨fun _ s => (.ok a, s)⟩
  bind := andThen

/-- Stop with a message of the program's own. -/
def refuse (message : String) : Prog ι σ α := ⟨fun _ s => (.error (.refused message), s)⟩

def refuseIf (p : Prop) [Decidable p] (message : String) : Prog ι σ Unit :=
  if p then refuse message else pure ()

/-- Run an operation only under a condition. -/
def onlyIf (p : Prop) [Decidable p] (x : Prog ι σ Unit) : Prog ι σ Unit :=
  if p then x else pure ()

def read (get : σ → α) : Prog ι σ α := ⟨fun _ s => (.ok (get s), s)⟩

/-- The operation at `point`: `effect` when it ends well; when it fails the
program ends, after `partly` if the operation was torn. -/
def tearable (point : ι) (effect partly : σ → σ) : Prog ι σ Unit where
  run f s :=
    match f point with
    | .done => (.ok (), effect s)
    | .failed => (.error (.command point), s)
    | .torn => (.error (.command point), partly s)

/-- An operation that takes effect whole or not at all. -/
def command (point : ι) (effect : σ → σ) : Prog ι σ Unit :=
  tearable point effect id

/-- The operation at `point`, its failure ignored by the caller. -/
def attempt (point : ι) (effect : σ → σ) : Prog ι σ Unit where
  run f s := (.ok (), if f point = .done then effect s else s)

/-- How the operation at `point` ends, for a caller that looks at it. -/
def ask (point : ι) : Prog ι σ Outcome := ⟨fun f s => (.ok (f point), s)⟩

/-- A change of the state that cannot fail. -/
def update (effect : σ → σ) : Prog ι σ Unit := ⟨fun _ s => (.ok (), effect s)⟩

/-- Run a part and hand its failure to the caller. -/
def caught (x : Prog ι σ α) : Prog ι σ (Except (Failure ι) α) :=
  ⟨fun f s => (.ok (x.run f s).1, (x.run f s).2)⟩

/-- Whether an execution ends well. -/
def succeeds (x : Prog ι σ α) (f : Script ι) (s : σ) : Bool := (x.run f s).1.isOk

/-- The state an execution leaves, successful or not. -/
def final (x : Prog ι σ α) (f : Script ι) (s : σ) : σ := (x.run f s).2

/-! ## Reading an execution -/

section Inversion

variable {f : Script ι} {s t : σ}

/-- A sequence runs its second part in the state of the first, unless that failed. -/
theorem bind_run (x : Prog ι σ α) (k : α → Prog ι σ β) :
    (x >>= k).run f s =
      match x.run f s with
      | (.ok a, t) => (k a).run f t
      | (.error e, t) => (.error e, t) := rfl

theorem pure_ok {a b : α} : (pure a : Prog ι σ α).run f s = (.ok b, t) ↔ b = a ∧ t = s := by
  simp [pure, eq_comm]

/-- A program succeeds exactly when it returns. -/
theorem succeeds_iff {x : Prog ι σ Unit} :
    x.succeeds f s = true ↔ x.run f s = (.ok (), x.final f s) := by
  unfold succeeds final
  rcases x.run f s with ⟨result | ⟨⟩, t⟩ <;> simp [Except.isOk, Except.toBool]

/-- A sequence succeeds exactly when both parts do. -/
theorem bind_ok {x : Prog ι σ α} {k : α → Prog ι σ β} {b : β} :
    (x >>= k).run f s = (.ok b, t) ↔
      ∃ a u, x.run f s = (.ok a, u) ∧ (k a).run f u = (.ok b, t) := by
  rw [bind_run]
  cases h : x.run f s with
  | mk result u =>
      cases result with
      | error e => simp
      | ok a =>
          constructor
          · exact fun hk => ⟨a, u, rfl, hk⟩
          · rintro ⟨a', u', heq, hk⟩
            obtain ⟨rfl, rfl⟩ : a = a' ∧ u = u' := by simpa using heq
            exact hk

theorem read_ok {get : σ → α} {a : α} :
    (read get : Prog ι σ α).run f s = (.ok a, t) ↔ a = get s ∧ t = s := by
  simp [read, eq_comm]

/-- What happens at a point is what the failures say. -/
theorem ask_ok {point : ι} {o : Outcome} :
    (ask point : Prog ι σ Outcome).run f s = (.ok o, t) ↔ o = f point ∧ t = s := by
  simp [ask, eq_comm]

/-- An update changes the state by its effect. -/
theorem update_ok {effect : σ → σ} {u : Unit} :
    (update effect : Prog ι σ Unit).run f s = (.ok u, t) ↔ t = effect s := by
  simp [update, eq_comm]

/-- An operation succeeds exactly when its point does, with its full effect. -/
theorem tearable_ok {point : ι} {effect partly : σ → σ} {u : Unit} :
    (tearable point effect partly).run f s = (.ok u, t) ↔ f point = .done ∧ t = effect s := by
  unfold tearable
  dsimp only
  cases hpoint : f point <;> simp [eq_comm]

/-- A command that returned has had its effect. -/
theorem command_ok {point : ι} {effect : σ → σ} {u : Unit} :
    (command point effect).run f s = (.ok u, t) ↔ f point = .done ∧ t = effect s :=
  tearable_ok

/-- An attempt always succeeds. -/
theorem attempt_ok {point : ι} {effect : σ → σ} {u : Unit} :
    (attempt point effect).run f s = (.ok u, t) ↔
      t = if f point = .done then effect s else s := by
  simp [attempt, eq_comm]

/-- A caught program returns, with its failure or its value. -/
theorem caught_ok {x : Prog ι σ α} {result : Except (Failure ι) α} :
    (caught x).run f s = (.ok result, t) ↔ x.run f s = (result, t) := by
  rcases h : x.run f s with ⟨r, u⟩
  simp [caught, h]

theorem refuse_ok {message : String} {a : α} :
    (refuse message : Prog ι σ α).run f s = (.ok a, t) ↔ False := by
  simp [refuse]

/-- A check passes exactly when it has nothing to object to. -/
theorem refuseIf_ok {p : Prop} [Decidable p] {message : String} {u : Unit} :
    (refuseIf p message : Prog ι σ Unit).run f s = (.ok u, t) ↔ ¬ p ∧ t = s := by
  unfold refuseIf
  by_cases h : p <;> simp [h, refuse_ok, pure_ok]

/-- A conditional step was run, or its condition does not hold. -/
theorem onlyIf_ok {p : Prop} [Decidable p] {x : Prog ι σ Unit} {u : Unit} :
    (onlyIf p x).run f s = (.ok u, t) ↔ (p ∧ x.run f s = (.ok u, t)) ∨ (¬ p ∧ t = s) := by
  unfold onlyIf
  by_cases h : p <;> simp [h, pure_ok]

/-! What a failure was. -/

variable {e : Failure ι}

/-- A sequence fails in its first part, or in its second part after the first one. -/
theorem bind_error {x : Prog ι σ α} {k : α → Prog ι σ β} :
    (x >>= k).run f s = (.error e, t) ↔
      x.run f s = (.error e, t) ∨
        ∃ a u, x.run f s = (.ok a, u) ∧ (k a).run f u = (.error e, t) := by
  rw [bind_run]
  cases h : x.run f s with
  | mk result u =>
      cases result with
      | error e' => simp
      | ok a =>
          constructor
          · exact fun hk => .inr ⟨a, u, rfl, hk⟩
          · rintro (heq | ⟨a', u', heq, hk⟩)
            · simp at heq
            · obtain ⟨rfl, rfl⟩ : a = a' ∧ u = u' := by simpa using heq
              exact hk

theorem pure_error {a : α} : (pure a : Prog ι σ α).run f s = (.error e, t) ↔ False := by
  simp [pure]

theorem read_error {get : σ → α} :
    (read get : Prog ι σ α).run f s = (.error e, t) ↔ False := by
  simp [read]

theorem ask_error {point : ι} :
    (ask point : Prog ι σ Outcome).run f s = (.error e, t) ↔ False := by
  simp [ask]

theorem update_error {effect : σ → σ} :
    (update effect : Prog ι σ Unit).run f s = (.error e, t) ↔ False := by
  simp [update]

theorem refuse_error {message : String} :
    (refuse message : Prog ι σ α).run f s = (.error e, t) ↔ e = .refused message ∧ t = s := by
  simp [refuse, eq_comm]

/-- A conditional refusal fails when its condition holds. -/
theorem refuseIf_error {p : Prop} [Decidable p] {message : String} :
    (refuseIf p message : Prog ι σ Unit).run f s = (.error e, t) ↔
      p ∧ e = .refused message ∧ t = s := by
  unfold refuseIf
  by_cases h : p <;> simp [h, refuse_error, pure_error]

/-- An operation fails at its own point, whole or after a part of its effect. -/
theorem tearable_error {point : ι} {effect partly : σ → σ} :
    (tearable point effect partly).run f s = (.error e, t) ↔
      e = .command point ∧
        (f point = .failed ∧ t = s ∨ f point = .torn ∧ t = partly s) := by
  unfold tearable
  dsimp only
  cases hpoint : f point <;> simp [eq_comm]

/-- A command fails at its point, without its effect. -/
theorem command_error {point : ι} {effect : σ → σ} :
    (command point effect).run f s = (.error e, t) ↔
      e = .command point ∧ f point ≠ .done ∧ t = s := by
  unfold command
  rw [tearable_error]
  cases hpoint : f point <;> simp

/-- A conditional step fails when its condition holds and the step fails. -/
theorem onlyIf_error {p : Prop} [Decidable p] {x : Prog ι σ Unit} :
    (onlyIf p x).run f s = (.error e, t) ↔ p ∧ x.run f s = (.error e, t) := by
  unfold onlyIf
  by_cases h : p <;> simp [h, pure_error]

end Inversion

/-! ## Rules of pre- and postconditions -/

/-- Started in a state that satisfies `P`, an execution that ends well ends in `Q` and
any other one in `E`. -/
def Ends (f : Script ι) (P : σ → Prop) (x : Prog ι σ α) (Q : α → σ → Prop) (E : σ → Prop) : Prop :=
  ∀ s, P s →
    match x.run f s with
    | (.ok a, t) => Q a t
    | (.error _, t) => E t

section Rules

variable {f : Script ι} {P P' : σ → Prop} {Q Q' : α → σ → Prop} {E E' : σ → Prop}
variable {x y : Prog ι σ α}

/-- What a rule says of one execution that returned. -/
theorem Ends.of_ok (h : Ends f P x Q E) {s t : σ} {a : α} (hs : P s)
    (hrun : x.run f s = (.ok a, t)) : Q a t := by
  have hend := h s hs
  rw [hrun] at hend
  exact hend

/-- What both postconditions entail holds of the state that is left. -/
theorem Ends.final (h : Ends f P x Q E) {I : σ → Prop} (hok : ∀ a t, Q a t → I t)
    (hfailed : ∀ t, E t → I t) {s : σ} (hs : P s) : I (x.final f s) := by
  have hend := h s hs
  unfold Prog.final
  rcases hrun : x.run f s with ⟨_ | a, t⟩
  · rw [hrun] at hend
    exact hfailed t hend
  · rw [hrun] at hend
    exact hok a t hend

/-- The rule of consequence. -/
theorem Ends.weaken (h : Ends f P x Q E) (hpre : ∀ s, P' s → P s)
    (hok : ∀ a t, Q a t → Q' a t) (hfailed : ∀ t, E t → E' t) : Ends f P' x Q' E' := by
  intro s hs
  have hend := h s (hpre s hs)
  rcases hrun : x.run f s with ⟨_ | a, t⟩
  · rw [hrun] at hend
    exact hfailed t hend
  · rw [hrun] at hend
    exact hok a t hend

theorem Ends.strengthen (h : Ends f P x Q E) (hpre : ∀ s, P' s → P s) : Ends f P' x Q E :=
  h.weaken hpre (fun _ _ ht => ht) fun _ ht => ht

theorem Ends.entail (h : Ends f P x Q E) (hok : ∀ a t, Q a t → Q' a t) : Ends f P x Q' E :=
  h.weaken (fun _ hs => hs) hok fun _ ht => ht

/-- Two laws of one program hold together. -/
theorem Ends.and (h : Ends f P x Q E) (h' : Ends f P x Q' E') :
    Ends f P x (fun a t => Q a t ∧ Q' a t) fun t => E t ∧ E' t := by
  intro s hs
  have hleft := h s hs
  have hright := h' s hs
  rcases hrun : x.run f s with ⟨_ | a, t⟩
  · rw [hrun] at hleft hright
    exact ⟨hleft, hright⟩
  · rw [hrun] at hleft hright
    exact ⟨hleft, hright⟩

/-- An execution ends well exactly if it does not leave what a failure does. -/
theorem Ends.succeeds_iff {x : Prog ι σ Unit} {p : Prop}
    (h : Ends f P x (fun _ _ => p) fun _ => ¬ p) {s : σ} (hs : P s) :
    x.succeeds f s = true ↔ p := by
  have hend := h s hs
  unfold succeeds
  rcases hrun : x.run f s with ⟨_ | a, t⟩
  · rw [hrun] at hend
    exact iff_of_false Bool.false_ne_true hend
  · rw [hrun] at hend
    exact iff_of_true rfl hend

/-- The second part starts where the first one ended well. -/
theorem Ends.bind {R : α → σ → Prop} {k : α → Prog ι σ β} {Q : β → σ → Prop}
    (hx : Ends f P x R E) (hk : ∀ a, Ends f (R a) (k a) Q E) : Ends f P (x >>= k) Q E := by
  intro s hs
  have hfirst := hx s hs
  rw [bind_run]
  rcases hrun : x.run f s with ⟨_ | a, t⟩
  · rw [hrun] at hfirst
    exact hfirst
  · rw [hrun] at hfirst
    exact hk a t hfirst

/-- A fact the precondition entails may be used to prove the triple. -/
theorem Ends.given {p : Prop} (hpre : ∀ s, P s → p) (h : p → Ends f P x Q E) : Ends f P x Q E :=
  fun s hs => h (hpre s hs) s hs

/-- A precondition may leave open which state it starts from. -/
theorem Ends.exists {γ : Type} {P : γ → σ → Prop} (h : ∀ c, Ends f (P c) x Q E) :
    Ends f (fun s => ∃ c, P c s) x Q E :=
  fun s ⟨c, hs⟩ => h c s hs

/-- A choice is proved branch by branch. -/
theorem Ends.ite {p : Prop} [Decidable p] (hthen : p → Ends f P x Q E)
    (helse : ¬ p → Ends f P y Q E) : Ends f P (if p then x else y) Q E := by
  split
  · next h => exact hthen h
  · next h => exact helse h

theorem ends_pure {a : α} (h : ∀ s, P s → Q a s) : Ends f P (pure a) Q E := h

theorem ends_read {get : σ → α} (h : ∀ s, P s → Q (get s) s) : Ends f P (read get) Q E := h

theorem ends_ask {point : ι} {Q : Outcome → σ → Prop} (h : ∀ s, P s → Q (f point) s) :
    Ends f P (ask point) Q E := h

theorem ends_refuse {message : String} (h : ∀ s, P s → E s) : Ends f P (refuse message) Q E := h

theorem ends_update {effect : σ → σ} {Q : Unit → σ → Prop} (h : ∀ s, P s → Q () (effect s)) :
    Ends f P (update effect) Q E := h

/-- A conditional refusal, from what holds on either side. -/
theorem ends_refuseIf {p : Prop} [Decidable p] {message : String} {Q : Unit → σ → Prop}
    (hrefused : p → ∀ s, P s → E s) (h : ¬ p → ∀ s, P s → Q () s) :
    Ends f P (refuseIf p message) Q E :=
  Ends.ite (fun hp => ends_refuse (hrefused hp)) fun hp => ends_pure (h hp)

/-- A conditional step, from what holds on either side. -/
theorem ends_onlyIf {p : Prop} [Decidable p] {x : Prog ι σ Unit} {Q : Unit → σ → Prop}
    (hx : p → Ends f P x Q E) (hskip : ¬ p → ∀ s, P s → Q () s) : Ends f P (onlyIf p x) Q E :=
  Ends.ite hx fun hp => ends_pure (hskip hp)

/-- A command that may be torn, from what each outcome leaves. -/
theorem ends_tearable {point : ι} {effect partly : σ → σ} {Q : Unit → σ → Prop}
    (hdone : ∀ s, P s → Q () (effect s)) (hfailed : ∀ s, P s → E s)
    (htorn : ∀ s, P s → E (partly s)) : Ends f P (tearable point effect partly) Q E := by
  intro s hs
  unfold tearable
  dsimp only
  cases f point with
  | done => exact hdone s hs
  | failed => exact hfailed s hs
  | torn => exact htorn s hs

/-- A command, from what it leaves when it is done and when it fails. -/
theorem ends_command {point : ι} {effect : σ → σ} {Q : Unit → σ → Prop}
    (hdone : ∀ s, P s → Q () (effect s)) (hfailed : ∀ s, P s → E s) :
    Ends f P (command point effect) Q E :=
  ends_tearable hdone hfailed hfailed

/-- What does not fail has its effect. -/
theorem ends_tearable_done {point : ι} {effect partly : σ → σ} {Q : Unit → σ → Prop}
    (hpoint : f point = .done) (hdone : ∀ s, P s → Q () (effect s)) :
    Ends f P (tearable point effect partly) Q E := by
  intro s hs
  unfold tearable
  dsimp only
  rw [hpoint]
  exact hdone s hs

/-- A command that does not fail has its effect. -/
theorem ends_command_done {point : ι} {effect : σ → σ} {Q : Unit → σ → Prop}
    (hpoint : f point = .done) (hdone : ∀ s, P s → Q () (effect s)) :
    Ends f P (command point effect) Q E :=
  ends_tearable_done hpoint hdone

/-- An attempt has its effect or none. -/
theorem ends_attempt {point : ι} {effect : σ → σ} {Q : Unit → σ → Prop}
    (hdone : f point = .done → ∀ s, P s → Q () (effect s))
    (hskip : f point ≠ .done → ∀ s, P s → Q () s) : Ends f P (attempt point effect) Q E := by
  intro s hs
  unfold attempt
  dsimp only
  split
  · next h => exact hdone h s hs
  · next h => exact hskip h s hs

/-- A caught failure ends well, in the postcondition for failures. -/
theorem ends_caught {Q : Except (Failure ι) α → σ → Prop}
    (h : Ends f P x (fun a => Q (.ok a)) fun t => ∀ e, Q (.error e) t) :
    Ends f P (caught x) Q E := by
  intro s hs
  have hend := h s hs
  unfold caught
  dsimp only
  rcases hrun : x.run f s with ⟨e | a, t⟩
  · rw [hrun] at hend
    exact hend e
  · rw [hrun] at hend
    exact hend

/-! ## Invariants -/

/-- `I` holds after every execution that it holds before, however that one ends. -/
abbrev Keeps (f : Script ι) (I : σ → Prop) (x : Prog ι σ α) : Prop :=
  Ends f I x (fun _ => I) I

variable {I : σ → Prop}

/-- Steps that keep an invariant keep it in turn. -/
theorem Keeps.bind {k : α → Prog ι σ β} (hx : Keeps f I x) (hk : ∀ a, Keeps f I (k a)) :
    Keeps f I (x >>= k) :=
  Ends.bind hx hk

theorem keeps_pure (a : α) : Keeps f I (pure a) := ends_pure fun _ h => h

/-- A conditional step keeps what the step does. -/
theorem Keeps.onlyIf {p : Prop} [Decidable p] {x : Prog ι σ Unit} (hx : p → Keeps f I x) :
    Keeps f I (onlyIf p x) :=
  ends_onlyIf hx fun _ _ h => h

theorem Keeps.caught (hx : Keeps f I x) : Keeps f I (caught x) :=
  ends_caught (hx.weaken (fun _ h => h) (fun _ _ h => h) fun _ h _ => h)

end Rules

end Prog

end Faulty
