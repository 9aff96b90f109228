import AdguardAdmin.BoundedGather
/-!
# One call to many servers

A read of the fleet calls every server of its scope, a few at a time.  Each call has a guard of
its own, and what slips past it is caught where the calls are gathered.

* `fan_out_answers` — however the calls interleave and however each of them ends, no more than
  the limit are in flight, the fan-out ends, and it returns one outcome per target, in the order
  given: its own answer, or why there is none.
-/

namespace AdguardAdmin.Fleet

open BoundedGather BoundedGather.Gather RunLaws

/-- A server, detached from its row. -/
structure Target where
  id : Nat
  name : String
  url : String
  username : Option String
  password : Option String
  tlsCert : Option String
  deriving DecidableEq, Repr

/-- An exception; `except Exception` handles the ordinary ones. -/
structure Raised where
  text : String
  className : String
  ordinary : Bool
  deriving DecidableEq, Repr

/-- `str(exc) or exc.__class__.__name__`. -/
def Raised.message (e : Raised) : String := if e.text = "" then e.className else e.text

variable {ν : Type}

structure Outcome (ν : Type) where
  target : Target
  value : Option ν
  error : Option String
  deriving DecidableEq, Repr

def Outcome.ok (o : Outcome ν) : Bool := o.error.isNone

/-- How the call to a server goes: building the client, the call itself, closing the client. -/
structure Exchange (ν : Type) where
  client : Except Raised Unit
  call : Except Raised ν
  close : Except Raised Unit
  deriving Repr

/-- Why a server did not answer. -/
def failure (t : Target) (e : Raised) : Outcome ν := ⟨t, none, some e.message⟩

/-- What `except Exception` makes of an exception. -/
def guarded (t : Target) (e : Raised) : Except Raised (Outcome ν) :=
  if e.ordinary = true then .ok (failure t e) else .error e

/-- `_call_one`: an exception while the client is closed replaces whatever there was. -/
def callOne (t : Target) (x : Exchange ν) : Except Raised (Outcome ν) :=
  match x.client with
  | .error e => guarded t e
  | .ok () =>
      match x.close with
      | .error e => .error e
      | .ok () =>
          match x.call with
          | .ok v => .ok ⟨t, some v, none⟩
          | .error e => guarded t e

/-- What a gathered result becomes. -/
def settle (t : Target) : Except Raised (Outcome ν) → Outcome ν
  | .ok o => o
  | .error e => failure t e

/-- `max(1, limit or sync_max_concurrency)`. -/
def permits (syncMaxConcurrency : Int) (limit : Option Int) : Nat :=
  (max 1 (if limit.getD 0 = 0 then syncMaxConcurrency else limit.getD 0)).toNat

/-- `asyncio.CancelledError`. -/
def cancelledError : Raised := ⟨"", "CancelledError", false⟩

section FanOut

variable (syncMaxConcurrency : Int) (limit : Option Int) (targets : List Target)
  (exchange : Nat → Exchange ν)

/-- What the task at an index gives. -/
def taskOf (i : Nat) : Except Raised (Outcome ν) :=
  match targets[i]? with
  | some t => callOne t (exchange i)
  | none => .error cancelledError

/-- The tasks after some steps of the event loop. -/
def gathering (run : List Event) : Gather (Except Raised (Outcome ν)) :=
  after (step (taskOf targets exchange) (.error cancelledError))
    (begin (permits syncMaxConcurrency limit) targets.length) run

/-- `fan_out`, once all its tasks are settled. -/
def fanOut (run : List Event) : Option (List (Outcome ν)) :=
  if targets = [] then some []
  else
    (gathering syncMaxConcurrency limit targets exchange run).results.map
      (List.zipWith settle targets)

end FanOut

/-- The server answers: nothing is raised on the way. -/
def Exchange.Answers (x : Exchange ν) (v : ν) : Prop :=
  x.client = .ok () ∧ x.close = .ok () ∧ x.call = .ok v

/-- The exception that an exchange ends with; closing the client comes after the call. -/
def Exchange.Raises (x : Exchange ν) (e : Raised) : Prop :=
  x.client = .error e ∨ x.client = .ok () ∧ (x.close = .error e ∨ x.close = .ok () ∧ x.call = .error e)

/-- An outcome is about its target, and holds the answer or the error of its own exchange. -/
structure Own (t : Target) (x : Exchange ν) (o : Outcome ν) : Prop where
  target : o.target = t
  value : ∀ v, o.value = some v ↔ x.Answers v
  error : ∀ text, o.error = some text ↔ ∃ e, x.Raises e ∧ e.message = text
  ok : o.ok = true ↔ ∃ v, x.Answers v

/-- An exchange that raises does not answer. -/
theorem Exchange.Raises.not_answers {x : Exchange ν} {e : Raised} (h : x.Raises e) (v : ν) :
    ¬ x.Answers v := by
  rintro ⟨hclient, hclose, hcall⟩
  rcases h with h | ⟨-, h | ⟨-, h⟩⟩
  · cases h.symm.trans hclient
  · cases h.symm.trans hclose
  · cases h.symm.trans hcall

/-- An exchange ends with one exception. -/
theorem Exchange.Raises.unique {x : Exchange ν} {e e' : Raised} (h : x.Raises e)
    (h' : x.Raises e') : e = e' := by
  rcases h with h | ⟨hclient, h | ⟨hclose, h⟩⟩
  · rcases h' with h' | ⟨hclient', -⟩
    · exact Except.error.inj (h.symm.trans h')
    · cases h.symm.trans hclient'
  · rcases h' with h' | ⟨-, h' | ⟨hclose', -⟩⟩
    · cases hclient.symm.trans h'
    · exact Except.error.inj (h.symm.trans h')
    · cases h.symm.trans hclose'
  · rcases h' with h' | ⟨-, h' | ⟨-, h'⟩⟩
    · cases hclient.symm.trans h'
    · cases hclose.symm.trans h'
    · exact Except.error.inj (h.symm.trans h')

/-- A failure with the exception of the exchange is its outcome. -/
theorem own_failure {t : Target} {x : Exchange ν} {e : Raised} (h : x.Raises e) :
    Own t x (failure t e) where
  target := rfl
  value v := iff_of_false nofun (h.not_answers v)
  error text := by
    constructor
    · intro htext
      exact ⟨e, h, Option.some.inj htext⟩
    · rintro ⟨e', h', rfl⟩
      rw [h.unique h']
      rfl
  ok := iff_of_false Bool.false_ne_true fun ⟨v, hv⟩ => h.not_answers v hv

/-- A guarded exchange has its own exception, whether or not `except Exception` handles it. -/
theorem own_guarded {t : Target} {x : Exchange ν} {e : Raised} (h : x.Raises e) :
    Own t x (settle t (guarded t e)) := by
  unfold guarded
  split <;> exact own_failure h

/-- Whatever a call does, its outcome is its own. -/
theorem own_settle (t : Target) (x : Exchange ν) : Own t x (settle t (callOne t x)) := by
  unfold callOne
  split
  · next e he => exact own_guarded (.inl he)
  · next hclient =>
      split
      · next e he => exact own_failure (.inr ⟨hclient, .inl he⟩)
      · next hclose =>
          split
          · next v hv =>
              have hanswers : x.Answers v := ⟨hclient, hclose, hv⟩
              refine ⟨rfl, fun w => ⟨fun hw => ?_, fun hw => ?_⟩, fun text => ?_,
                iff_of_true rfl ⟨v, hanswers⟩⟩
              · obtain rfl := Option.some.inj hw
                exact hanswers
              · exact congrArg some (Except.ok.inj (hv.symm.trans hw.2.2))
              · exact iff_of_false nofun fun ⟨e, he, _⟩ => he.not_answers v hanswers
          · next e he => exact own_guarded (.inr ⟨hclient, .inr ⟨hclose, he⟩⟩)

/-- There is at least one permit. -/
theorem permits_pos (syncMaxConcurrency : Int) (limit : Option Int) :
    0 < permits syncMaxConcurrency limit := by
  unfold permits
  omega

/-- Each target is settled with its own exchange. -/
theorem zipWith_settle (targets : List Target) (exchange : Nat → Exchange ν) :
    List.zipWith settle targets ((List.range targets.length).map (taskOf targets exchange)) =
      targets.mapIdx fun i t => settle t (callOne t (exchange i)) := by
  refine List.ext_getElem (by simp) fun i hi _ => ?_
  have hlt : i < targets.length := by simpa using hi
  simp [taskOf, hlt]

/-- **One outcome per target, in order**, from every interleaving of the calls: no more than the
limit are in flight, no call runs forever in the queue, and each outcome is that of its own
server. -/
theorem fan_out_answers (syncMaxConcurrency : Int) (limit : Option Int) (targets : List Target)
    (exchange : Nat → Exchange ν) (run : List Event) (hrun : ∀ i, .cancel i ∉ run) :
    (gathering syncMaxConcurrency limit targets exchange run).inFlight ≤
        permits syncMaxConcurrency limit ∧
      (Along (step (taskOf targets exchange) (.error cancelledError))
          (fun g e => g.step (taskOf targets exchange) (.error cancelledError) e ≠ g)
          (begin (permits syncMaxConcurrency limit) targets.length) run →
        run.length ≤ 3 * targets.length) ∧
      ((gathering syncMaxConcurrency limit targets exchange run).Idle →
        ∃ outcomes, fanOut syncMaxConcurrency limit targets exchange run = some outcomes ∧
          outcomes.length = targets.length ∧
          ∀ (i : Nat) (t : Target) (o : Outcome ν), targets[i]? = some t → outcomes[i]? = some o →
            Own t (exchange i) o) := by
  refine ⟨inFlight_le _ _ run, moves_le, fun hidle => ?_⟩
  refine ⟨targets.mapIdx fun i t => settle t (callOne t (exchange i)), ?_, by simp, ?_⟩
  · unfold fanOut
    split
    · next hempty => rw [hempty, List.mapIdx_nil]
    · rw [gathering, results_eq (permits_pos _ _) hrun hidle, Option.map_some, zipWith_settle]
  · intro i t o hi ho
    rw [List.getElem?_mapIdx, hi] at ho
    obtain rfl := Option.some.inj ho
    exact own_settle t (exchange i)

/-! ### A fan-out -/

def targetNamed (id : Nat) (name : String) : Target := ⟨id, name, "http://" ++ name, none, none, none⟩

/-- The second of three servers refuses the connection. -/
def secondRefuses (i : Nat) : Exchange Nat :=
  ⟨.ok (), if i = 1 then .error ⟨"", "ConnectError", true⟩ else .ok i, .ok ()⟩

/-- One at a time, and the last one is woken up by the first one. -/
def oneAtATime : List Event :=
  [.start 0, .start 1, .start 2, .finish 0, .resume 1, .finish 1, .resume 2, .finish 2]

def threeTargets : List Target := [targetNamed 1 "a", targetNamed 2 "b", targetNamed 3 "c"]

/-- The theorem applies to three servers, of which the second refuses. -/
theorem one_at_a_time_answers :
    (gathering 1 none threeTargets secondRefuses oneAtATime).inFlight ≤ 1 ∧
      oneAtATime.length ≤ 9 ∧
      ∃ outcomes, fanOut 1 none threeTargets secondRefuses oneAtATime = some outcomes ∧
        outcomes.map Outcome.error = [none, some "ConnectError", none] ∧
        ∀ (i : Nat) (t : Target) (o : Outcome Nat), threeTargets[i]? = some t →
          outcomes[i]? = some o → Own t (secondRefuses i) o := by
  have hrun : ∀ i, .cancel i ∉ oneAtATime := by
    intro i hi
    simp [oneAtATime] at hi
  have herrors : (fanOut 1 none threeTargets secondRefuses oneAtATime).map
      (List.map Outcome.error) = some [none, some "ConnectError", none] := by
    decide +kernel
  obtain ⟨hbound, hmoves, hends⟩ := fan_out_answers 1 none threeTargets secondRefuses oneAtATime hrun
  obtain ⟨outcomes, hfan, -, hown⟩ := hends (by decide +kernel)
  rw [hfan] at herrors
  exact ⟨hbound, hmoves (by decide +kernel), outcomes, hfan, Option.some.inj herrors, hown⟩

end AdguardAdmin.Fleet
