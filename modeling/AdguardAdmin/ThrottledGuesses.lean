import Mathlib
import AdguardAdmin.LoginThrottle
/-!
# Guesses under the throttle

An attempt that a limiter has let through is one for which it may have to record a failure.
While the failures on record and these attempts together stay within the limit (`Careful`), a
key is locked only when no attempt is under way for it, and what was guessed is on record or
about to be (`Kept`).

* `few_guesses` — in a run whose steps are all careful, no window has more guesses than allowed
  and no password is checked for a locked key;
* `own_account_resets` — otherwise an attacker with an account of his own has as many guesses as
  he likes;
* `throttle_is_outrun` — and so has one who makes his attempts at once.
-/

namespace AdguardAdmin.LoginThrottle

open RateLimiter (Limits Limiter second)
open RunLaws WindowCount

section Throttle

variable {lower : String → String} {limits : Api → Limits} {s : System}

/-! ## Keys -/

/-- Keys of accounts and of addresses differ. -/
theorem accountKey_ne_addressKey (api : Api) (username address : String) :
    accountKey lower api username ≠ addressKey api address := by
  intro heq
  have hchars := congrArg String.toList heq
  cases api <;> simp [accountKey, addressKey, String.toList_append] at hchars

/-- Addresses have different keys. -/
theorem addressKey_inj {api : Api} {address address' : String}
    (h : addressKey api address = addressKey api address') : address = address' := by
  have hchars := congrArg String.toList h
  cases api with
  | web => exact String.toList_inj.mp (by simpa [addressKey, String.toList_append] using hchars)
  | compat => exact String.toList_inj.mp (by simpa [addressKey, String.toList_append] using hchars)

/-- The two roles of an attempt have different keys. -/
theorem key_inj {a : Attempt} {r r' : Role} (h : a.key lower r = a.key lower r') : r = r' := by
  cases r with
  | address =>
      cases r' with
      | address => rfl
      | account => exact absurd h.symm (accountKey_ne_addressKey a.api a.username a.address)
  | account =>
      cases r' with
      | address => exact absurd h (accountKey_ne_addressKey a.api a.username a.address)
      | account => rfl

/-- An attempt's key is that of an address when it is the key of its own. -/
theorem key_eq_addressKey_iff {a : Attempt} {r : Role} {address : String} :
    a.key lower r = addressKey a.api address ↔ r = .address ∧ a.address = address := by
  cases r with
  | address => exact ⟨fun h => ⟨rfl, addressKey_inj h⟩, fun h => by rw [← h.2]; rfl⟩
  | account =>
      exact ⟨fun h => absurd h (accountKey_ne_addressKey a.api a.username address),
        fun h => nomatch h.1⟩

/-- An attempt holds a key when it holds it in some role. -/
theorem holdsKey_iff {a : Attempt} {api : Api} {key : String} :
    a.holdsKey lower api key = true ↔
      a.api = api ∧ ∃ r, a.phase.holds r = true ∧ a.key lower r = key := by
  rw [Attempt.holdsKey, decide_eq_true_eq]
  constructor
  · rintro ⟨hapi, h | h⟩
    · exact ⟨hapi, .address, h⟩
    · exact ⟨hapi, .account, h⟩
  · rintro ⟨hapi, r, h⟩
    cases r with
    | address => exact ⟨hapi, .inl h⟩
    | account => exact ⟨hapi, .inr h⟩

/-! ## Attempts that change their phase -/

/-- A count changes by the entry that is replaced. -/
theorem countP_set_of {α : Type} {p : α → Bool} {xs : List α} {n : Nat} {x y : α}
    (h : xs[n]? = some x) :
    (xs.set n y).countP p + (if p x then 1 else 0) = xs.countP p + (if p y then 1 else 0) := by
  obtain ⟨hn, hx⟩ := List.getElem?_eq_some_iff.mp h
  have hpos : p x = true → 0 < xs.countP p := by
    intro hp
    exact List.countP_pos_iff.mpr ⟨x, List.mem_of_getElem? h, hp⟩
  rw [List.countP_set hn, hx]
  split
  · next hp =>
    have hone := hpos hp
    omega
  · omega

variable {a : Attempt} {number : Nat} {phase : Phase}

/-- The attempts under way when one of them changes its phase. -/
theorem underWay_setPhase (lower : String → String) (phase : Phase)
    (h : s.attempts[number]? = some a) (api : Api) (key : String) :
    (s.setPhase number a phase).underWay lower api key +
        (if a.holdsKey lower api key then 1 else 0) =
      s.underWay lower api key +
        (if ({ a with phase := phase } : Attempt).holdsKey lower api key then 1 else 0) :=
  countP_set_of h

/-- A phase that holds one more key counts one more under that key. -/
theorem holdsKey_more {p q : Phase} {r : Role}
    (hold : ∀ r', q.holds r' = true ↔ p.holds r' = true ∨ r' = r) (hnew : p.holds r = false)
    (api : Api) (key : String) :
    (if ({ a with phase := q } : Attempt).holdsKey lower api key then 1 else 0) =
      (if ({ a with phase := p } : Attempt).holdsKey lower api key then 1 else 0) +
        if a.api = api ∧ a.key lower r = key then 1 else 0 := by
  by_cases hkey : a.api = api ∧ a.key lower r = key
  · have hbefore : ({ a with phase := p } : Attempt).holdsKey lower api key = false := by
      rw [Bool.eq_false_iff, Ne, holdsKey_iff]
      rintro ⟨-, r', hr', heq⟩
      have hrole : r' = r := key_inj (a := a) (heq.trans hkey.2.symm)
      rw [hrole] at hr'
      exact nomatch hnew.symm.trans hr'
    have hafter : ({ a with phase := q } : Attempt).holdsKey lower api key = true :=
      holdsKey_iff.mpr ⟨hkey.1, r, (hold r).mpr (.inr rfl), hkey.2⟩
    rw [if_pos hafter, if_neg (by simp [hbefore]), if_pos hkey]
  · have hsame : ({ a with phase := q } : Attempt).holdsKey lower api key =
        ({ a with phase := p } : Attempt).holdsKey lower api key := by
      rw [Bool.eq_iff_iff, holdsKey_iff, holdsKey_iff]
      constructor
      · rintro ⟨hapi, r', hr', heq⟩
        refine ⟨hapi, r', ?_, heq⟩
        rcases (hold r').mp hr' with hr' | rfl
        · exact hr'
        · exact absurd ⟨hapi, heq⟩ hkey
      · rintro ⟨hapi, r', hr', heq⟩
        exact ⟨hapi, r', (hold r').mpr (.inl hr'), heq⟩
    rw [hsame, if_neg hkey, Nat.add_zero]

/-- An attempt is let through for one more key. -/
theorem underWay_take (h : s.attempts[number]? = some a) {r : Role}
    (hold : ∀ r', phase.holds r' = true ↔ a.phase.holds r' = true ∨ r' = r)
    (hnew : a.phase.holds r = false) (api : Api) (key : String) :
    (s.setPhase number a phase).underWay lower api key = s.underWay lower api key +
      if a.api = api ∧ a.key lower r = key then 1 else 0 := by
  have hcount := underWay_setPhase lower phase h api key
  have hmore : _ = (if a.holdsKey lower api key then 1 else 0) + _ :=
    holdsKey_more (a := a) hold hnew api key
  omega

/-- What an attempt has held under a key is given up. -/
theorem underWay_release (h : s.attempts[number]? = some a) {r : Role}
    (hold : ∀ r', a.phase.holds r' = true ↔ phase.holds r' = true ∨ r' = r)
    (hnew : phase.holds r = false) (api : Api) (key : String) :
    (s.setPhase number a phase).underWay lower api key +
      (if a.api = api ∧ a.key lower r = key then 1 else 0) = s.underWay lower api key := by
  have hcount := underWay_setPhase lower phase h api key
  have hmore : (if a.holdsKey lower api key then 1 else 0) = _ :=
    holdsKey_more (a := a) hold hnew api key
  omega

/-- An attempt that holds no more keys than before. -/
theorem underWay_fewer (h : s.attempts[number]? = some a)
    (hold : ∀ r', phase.holds r' = true → a.phase.holds r' = true) (api : Api) (key : String) :
    (s.setPhase number a phase).underWay lower api key ≤ s.underWay lower api key := by
  have hcount := underWay_setPhase lower phase h api key
  have hless : ({ a with phase := phase } : Attempt).holdsKey lower api key = true →
      a.holdsKey lower api key = true := by
    rw [holdsKey_iff, holdsKey_iff]
    rintro ⟨hapi, r, hr, heq⟩
    exact ⟨hapi, r, hold r hr, heq⟩
  split at hcount
  · split at hcount
    · omega
    · omega
  · next hnot =>
    rw [if_neg fun hholds => hnot (hless hholds)] at hcount
    omega

/-- An attempt under way for a key is counted there. -/
theorem underWay_pos (h : s.attempts[number]? = some a) {r : Role}
    (hholds : a.phase.holds r = true) : 0 < s.underWay lower a.api (a.key lower r) :=
  List.countP_pos_iff.mpr ⟨a, List.mem_of_getElem? h, holdsKey_iff.mpr ⟨rfl, r, hholds, rfl⟩⟩

/-! ## Failures that are about to be recorded -/

def Phase.failsAddress : Phase → Bool
  | .failing .address _ => true
  | _ => false

def Attempt.toRecord (a : Attempt) (api : Api) (address : String) : Bool :=
  a.api = api ∧ a.address = address ∧ a.phase.failsAddress = true

/-- The attempts that have failed and are about to record it under their address. -/
def System.toRecord (s : System) (api : Api) (address : String) : Nat :=
  s.attempts.countP fun a => a.toRecord api address

/-- The failures to record change by the attempt that changes its phase. -/
theorem toRecord_setPhase (phase : Phase) (h : s.attempts[number]? = some a) (api : Api) (address : String) :
    (s.setPhase number a phase).toRecord api address +
        (if a.toRecord api address then 1 else 0) =
      s.toRecord api address +
        (if ({ a with phase := phase } : Attempt).toRecord api address then 1 else 0) :=
  countP_set_of h

/-- What is to be recorded is still under way. -/
theorem toRecord_le (lower : String → String) (s : System) (api : Api) (address : String) :
    s.toRecord api address ≤ s.underWay lower api (addressKey api address) := by
  apply List.countP_mono_left
  intro b _ hb
  obtain ⟨hapi, haddress, hfails⟩ := of_decide_eq_true hb
  have hholds : b.phase.holds .address = true := by
    cases hphase : b.phase with
    | failing r answer => cases r with
      | address => rfl
      | account => rw [hphase] at hfails; exact nomatch hfails
    | _ => rw [hphase] at hfails; exact nomatch hfails
  refine holdsKey_iff.mpr ⟨hapi, .address, hholds, ?_⟩
  rw [← hapi, ← haddress]
  rfl

/-! ## The invariant -/

variable (lower limits)

structure Kept (s : System) : Prop where
  logged : ∀ h ∈ s.log, h.1 ≤ s.clock
  sorted : ∀ api key, ((s.limiter api).failures key).Pairwise (· ≤ ·)
  past : ∀ api key, ∀ t ∈ (s.limiter api).failures key, t ≤ s.clock
  /-- A key is locked, and stays on record as such, without failures and attempts. -/
  locks : ∀ api key, (s.limiter api).lockedUntil key ≠ none →
    (s.limiter api).failures key = [] ∧ s.underWay lower api key = 0
  budget : ∀ api key,
    s.onRecord limits api key + s.underWay lower api key ≤ (limits api).maxAttempts
  /-- Guesses of the window are on record, or about to be. -/
  guesses : ∀ api address since, s.clock - (limits api).window ≤ since →
    countSince Prod.fst (isGuess api address) (isLockout api address) since s.log ≤
      (s.limiter api).failuresSince (addressKey api address) since + s.toRecord api address
  few : ∀ api address, s.FewGuesses limits api address

variable {lower limits}

/-- At the start nothing is recorded and nothing under way. -/
theorem kept_start (clock : Int) : Kept lower limits (start clock) where
  logged := fun _ h => nomatch h
  sorted := fun _ _ => List.Pairwise.nil
  past := fun _ _ _ h => nomatch h
  locks := fun _ _ h => absurd rfl h
  budget := fun _ _ => Nat.zero_le _
  guesses := fun _ _ _ _ => Nat.zero_le _
  few := fun _ _ => bounded_nil

/-- Time may pass. -/
theorem Kept.wait (h : Kept lower limits s) (nanoseconds : Nat) :
    Kept lower limits { s with clock := s.clock + nanoseconds } where
  logged b hb := by
    have hle := h.logged b hb
    simp only
    omega
  sorted := h.sorted
  past api key t ht := by
    have hle := h.past api key t ht
    simp only
    omega
  locks := h.locks
  budget api key := by
    have hless : (s.limiter api).failuresSince key
        (s.clock + nanoseconds - (limits api).window) ≤ s.onRecord limits api key :=
      Limiter.failuresSince_anti (by omega)
    exact (Nat.add_le_add_right hless _).trans (h.budget api key)
  guesses api address since hsince := by
    apply h.guesses api address since
    simp only at hsince
    omega
  few := h.few

/-- An attempt may arrive. -/
theorem Kept.arrive (h : Kept lower limits s) (api : Api) (address username : String) :
    Kept lower limits { s with
      attempts := s.attempts ++ [⟨api, address, username, .checking .address⟩] } := by
  have hunder : ∀ api' key, ({ s with
      attempts := s.attempts ++ [⟨api, address, username, .checking .address⟩] } :
        System).underWay lower api' key = s.underWay lower api' key := by
    intro api' key
    simp only [System.underWay, List.countP_append]
    simp [Attempt.holdsKey, Phase.holds]
  have hrecord : ∀ api' address', ({ s with
      attempts := s.attempts ++ [⟨api, address, username, .checking .address⟩] } :
        System).toRecord api' address' = s.toRecord api' address' := by
    intro api' address'
    simp only [System.toRecord, List.countP_append]
    simp [Attempt.toRecord, Phase.failsAddress]
  refine ⟨h.logged, h.sorted, h.past, fun api' key hlock => ?_, fun api' key => ?_,
    fun api' address' since hsince => ?_, h.few⟩
  · rw [hunder]
    exact h.locks api' key hlock
  · rw [hunder]
    exact h.budget api' key
  · rw [hrecord]
    exact h.guesses api' address' since hsince

/-- An attempt moves on to a phase that holds no more keys. -/
theorem Kept.setPhase (h : Kept lower limits s) (hnumber : s.attempts[number]? = some a)
    (hold : ∀ r, phase.holds r = true → a.phase.holds r = true)
    (hfails : a.phase.failsAddress = true → phase.failsAddress = true) :
    Kept lower limits (s.setPhase number a phase) := by
  have hunder : ∀ api key, (s.setPhase number a phase).underWay lower api key ≤ _ :=
    underWay_fewer hnumber hold
  refine ⟨h.logged, h.sorted, h.past, fun api key hlock => ?_, fun api key => ?_,
    fun api address since hsince => ?_, h.few⟩
  · obtain ⟨hnone, hzero⟩ := h.locks api key hlock
    refine ⟨hnone, Nat.le_zero.mp ?_⟩
    rw [← hzero]
    exact hunder api key
  · exact (Nat.add_le_add_left (hunder api key) _).trans (h.budget api key)
  · have hrecord := toRecord_setPhase phase hnumber api address
    have hmore : a.toRecord api address = true →
        ({ a with phase := phase } : Attempt).toRecord api address = true := by
      intro hbefore
      obtain ⟨hapi, haddress, hphase⟩ := of_decide_eq_true hbefore
      exact decide_eq_true ⟨hapi, haddress, hfails hphase⟩
    have hle : s.toRecord api address ≤ (s.setPhase number a phase).toRecord api address := by
      split at hrecord
      · next hbefore =>
        rw [if_pos (hmore hbefore)] at hrecord
        omega
      · omega
    exact (h.guesses api address since hsince).trans (Nat.add_le_add_left hle _)

/-! ## Entries of the limiters -/

/-- The entries of one key are replaced. -/
def System.setEntry (s : System) (api : Api) (key : String) (failures : List Int)
    (lockedUntil : Option Int) : System :=
  s.setLimiter api
    { failures := Function.update (s.limiter api).failures key failures
      lockedUntil := Function.update (s.limiter api).lockedUntil key lockedUntil }

section Entry

variable {api api' : Api} {key key' : String} {ts : List Int} {deadline : Option Int}

/-- An entry that is set changes the failures of its own key only. -/
theorem setEntry_failures : ((s.setEntry api key ts deadline).limiter api').failures key' =
    if api' = api ∧ key' = key then ts else (s.limiter api').failures key' := by
  simp only [System.setEntry, System.setLimiter, Function.update_apply]
  by_cases hapi : api' = api
  · subst hapi
    simp [Function.update_apply]
  · simp [hapi]

/-- Setting the entry of a key changes the deadline of that key only. -/
theorem setEntry_lockedUntil : ((s.setEntry api key ts deadline).limiter api').lockedUntil key' =
    if api' = api ∧ key' = key then deadline else (s.limiter api').lockedUntil key' := by
  simp only [System.setEntry, System.setLimiter, Function.update_apply]
  by_cases hapi : api' = api
  · subst hapi
    simp [Function.update_apply]
  · simp [hapi]

/-- Setting the entry of a key changes the count of that key only. -/
theorem setEntry_failuresSince {since : Int} :
    ((s.setEntry api key ts deadline).limiter api').failuresSince key' since =
      if api' = api ∧ key' = key then ts.countP fun t => since ≤ t
      else (s.limiter api').failuresSince key' since := by
  rw [Limiter.failuresSince, setEntry_failures]
  split
  · rfl
  · rfl

end Entry

/-- The entries of a key are dropped. -/
theorem Kept.forget (h : Kept lower limits s) {api : Api} {key : String}
    (hkey : ∀ address, key = addressKey api address → s.onRecord limits api key = 0) :
    Kept lower limits (s.setLimiter api ((s.limiter api).forget key)) := by
  change Kept lower limits (s.setEntry api key [] none)
  refine ⟨h.logged, fun api' key' => ?_, fun api' key' => ?_, fun api' key' hlock => ?_,
    fun api' key' => ?_, fun api' address since hsince => ?_, h.few⟩
  · rw [setEntry_failures]
    split
    · exact List.Pairwise.nil
    · exact h.sorted api' key'
  · rw [setEntry_failures]
    split
    · exact fun t ht => nomatch ht
    · exact h.past api' key'
  · rw [setEntry_lockedUntil] at hlock
    rw [setEntry_failures]
    split at hlock
    · exact absurd rfl hlock
    · next hother =>
      rw [if_neg hother]
      exact h.locks api' key' hlock
  · have hbudget := h.budget api' key'
    have hunder : (s.setEntry api key [] none).underWay lower api' key' =
        s.underWay lower api' key' := rfl
    rw [System.onRecord, setEntry_failuresSince, hunder]
    split
    · rw [List.countP_nil]
      omega
    · exact hbudget
  · have hbefore := h.guesses api' address since hsince
    rw [setEntry_failuresSince]
    split
    · next hsame =>
      obtain ⟨rfl, hsame⟩ := hsame
      have hnone := hkey address hsame.symm
      have hless : (s.limiter api').failuresSince (addressKey api' address) since ≤
          s.onRecord limits api' key := by
        rw [← hsame]
        exact Limiter.failuresSince_anti hsince
      rw [hnone] at hless
      rw [Nat.le_zero.mp hless] at hbefore
      exact hbefore
    · exact hbefore

/-! ## Steps -/

/-- An attempt is let through for a key that is not locked and has room. -/
theorem Kept.take (h : Kept lower limits s) (hnumber : s.attempts[number]? = some a) {r : Role}
    (hold : ∀ r', phase.holds r' = true ↔ a.phase.holds r' = true ∨ r' = r)
    (hnew : a.phase.holds r = false) (hfails : a.phase.failsAddress = false)
    (hfree : (s.limiter a.api).lockedUntil (a.key lower r) = none)
    (hroom : s.onRecord limits a.api (a.key lower r) +
      s.underWay lower a.api (a.key lower r) < (limits a.api).maxAttempts) :
    Kept lower limits (s.setPhase number a phase) := by
  have hunder : ∀ api key, (s.setPhase number a phase).underWay lower api key = _ :=
    underWay_take hnumber hold hnew
  refine ⟨h.logged, h.sorted, h.past, fun api key hlock => ?_, fun api key => ?_,
    fun api address since hsince => ?_, h.few⟩
  · obtain ⟨hnone, hzero⟩ := h.locks api key hlock
    refine ⟨hnone, ?_⟩
    rw [hunder, if_neg, hzero]
    rintro ⟨rfl, rfl⟩
    exact hlock hfree
  · have hbudget := h.budget api key
    rw [hunder]
    split
    · next hkey =>
      obtain ⟨rfl, rfl⟩ := hkey
      exact hroom
    · exact hbudget
  · have hrecord := toRecord_setPhase phase hnumber api address
    have hbefore : a.toRecord api address = false := by
      simp [Attempt.toRecord, hfails]
    rw [if_neg (by simp [hbefore])] at hrecord
    have hguesses := h.guesses api address since hsince
    have hsame : s.toRecord api address ≤ (s.setPhase number a phase).toRecord api address := by
      omega
    exact hguesses.trans (Nat.add_le_add_left hsame _)

theorem setLimiter_self (api : Api) : s.setLimiter api (s.limiter api) = s := by
  rw [System.setLimiter, Function.update_eq_self]

/-- An attempt is let through, or sent away. -/
theorem Kept.check (h : Kept lower limits s) (hnumber : s.attempts[number]? = some a) {r : Role}
    (hphase : a.phase = .checking r)
    (hroom : ¬ (s.limiter a.api).Locked s.clock (a.key lower r) →
      s.onRecord limits a.api (a.key lower r) + s.underWay lower a.api (a.key lower r) <
        (limits a.api).maxAttempts) :
    Kept lower limits (s.check lower number a r) := by
  unfold System.check
  by_cases hlocked : (s.limiter a.api).Locked s.clock (a.key lower r)
  · have hwait : ((s.limiter a.api).retryAfter s.clock (a.key lower r)).1 ≠ 0 :=
      fun hzero => Limiter.retryAfter_eq_zero_iff.mp hzero hlocked
    simp only [hwait, ne_eq, not_false_eq_true, if_true,
      Limiter.retryAfter_snd_of_locked hlocked, setLimiter_self]
    exact h.setPhase hnumber (fun r' hr' => nomatch hr') fun hfails => by
      rw [hphase] at hfails
      exact nomatch hfails
  · have hnow := Limiter.retryAfter_eq_zero_iff.mpr hlocked
    have hroom := hroom hlocked
    obtain ⟨s₁, hs₁, hkept, hfree, hroom₁, hattempts⟩ : ∃ s₁,
        s.setLimiter a.api ((s.limiter a.api).retryAfter s.clock (a.key lower r)).2 = s₁ ∧
        Kept lower limits s₁ ∧ (s₁.limiter a.api).lockedUntil (a.key lower r) = none ∧
        s₁.onRecord limits a.api (a.key lower r) + s₁.underWay lower a.api (a.key lower r) <
          (limits a.api).maxAttempts ∧ s₁.attempts = s.attempts := by
      rcases Limiter.retryAfter_snd hlocked with ⟨hsame, hfree⟩ | ⟨hforget, hold⟩
      · rw [hsame, setLimiter_self]
        exact ⟨s, rfl, h, hfree, hroom, rfl⟩
      · rw [hforget]
        have hempty := (h.locks a.api (a.key lower r) hold).1
        have hzero : s.onRecord limits a.api (a.key lower r) = 0 := by
          rw [System.onRecord, Limiter.failuresSince, hempty]
          rfl
        refine ⟨_, rfl, h.forget fun _ _ => hzero, ?_, ?_, rfl⟩
        · simp [System.setLimiter]
        · refine lt_of_le_of_lt (Nat.add_le_add_right ?_ _) hroom
          rw [System.onRecord, Limiter.failuresSince]
          simp [System.setLimiter]
    simp only [hnow, ne_eq, not_true_eq_false, if_false, hs₁]
    rw [← hattempts] at hnumber
    cases r with
    | address =>
        refine hkept.take hnumber (r := .address) (fun r' => ?_) ?_ ?_ hfree hroom₁
        · rw [hphase]
          simp [Phase.holds]
        · rw [hphase]
          rfl
        · rw [hphase]
          rfl
    | account =>
        refine hkept.take hnumber (r := .account) (fun r' => ?_) ?_ ?_ hfree hroom₁
        · rw [hphase]
          cases r' <;> simp [Phase.holds]
        · rw [hphase]
          rfl
        · rw [hphase]
          rfl

/-- Something is noted that is neither a guess nor a lockout of an address. -/
theorem Kept.note (h : Kept lower limits s) {b : Happening}
    (hguess : ∀ api address, isGuess api address (s.clock, b) = false)
    (hlock : ∀ api address, isLockout api address (s.clock, b) = false) :
    Kept lower limits (s.note b) := by
  refine ⟨fun c hc => ?_, h.sorted, h.past, h.locks, h.budget, fun api address since hsince => ?_,
    fun api address => ?_⟩
  · rcases List.mem_cons.mp hc with rfl | hc
    · exact Int.le_refl _
    · exact h.logged c hc
  · have hguesses := h.guesses api address since hsince
    rw [← countSince_skip (hlock api address) (hguess api address)] at hguesses
    exact hguesses
  · apply bounded_cons (h.few api address)
    intro hcounts
    rw [hguess] at hcounts
    exact nomatch hcounts

/-- A guess is noted, and is about to be put on record. -/
theorem Kept.guess (h : Kept lower limits s) (hnumber : s.attempts[number]? = some a)
    (hphase : a.phase = .verifying) (answer : Answer) :
    Kept lower limits ((s.setPhase number a (.failing .address answer)).note
      (.checked a.api a.address false)) := by
  have hkept : Kept lower limits (s.setPhase number a (.failing .address answer)) :=
    h.setPhase hnumber (fun r _ => by rw [hphase]; rfl) fun _ => rfl
  have hmine : isGuess a.api a.address (s.clock, .checked a.api a.address false) = true :=
    decide_eq_true rfl
  have hother : ∀ api address, ¬ (a.api = api ∧ a.address = address) →
      isGuess api address (s.clock, .checked a.api a.address false) = false := by
    intro api address hne
    apply decide_eq_false
    intro heq
    injection heq with hapi haddress
    exact hne ⟨hapi, haddress⟩
  have hone : ∀ since ≤ s.clock, countSince Prod.fst (isGuess a.api a.address)
      (isLockout a.api a.address) since
        ((s.clock, Happening.checked a.api a.address false) :: s.log) =
      countSince Prod.fst (isGuess a.api a.address) (isLockout a.api a.address) since s.log + 1 :=
    fun since hsince => countSince_count rfl hmine hsince
  have hrecord := toRecord_setPhase (.failing .address answer) hnumber a.api a.address
  have hfailing : ({ a with phase := .failing .address answer } : Attempt).toRecord
      a.api a.address = true := decide_eq_true ⟨rfl, rfl, rfl⟩
  rw [if_neg (by simp [Attempt.toRecord, hphase, Phase.failsAddress]), if_pos hfailing]
    at hrecord
  refine ⟨fun c hc => ?_, hkept.sorted, hkept.past, hkept.locks, hkept.budget,
    fun api address since hsince => ?_, fun api address => ?_⟩
  · rcases List.mem_cons.mp hc with rfl | hc
    · exact Int.le_refl _
    · exact hkept.logged c hc
  · by_cases hsame : a.api = api ∧ a.address = address
    · obtain ⟨rfl, rfl⟩ := hsame
      by_cases hlate : since ≤ s.clock
      · have hguesses := h.guesses a.api a.address since hsince
        have hcount := hone since hlate
        have hgoal : countSince Prod.fst (isGuess a.api a.address) (isLockout a.api a.address)
            since ((s.clock, .checked a.api a.address false) :: s.log) ≤
              (s.limiter a.api).failuresSince (addressKey a.api a.address) since +
                (s.setPhase number a (.failing .address answer)).toRecord a.api a.address := by
          omega
        exact hgoal
      · have hzero : countSince Prod.fst (isGuess a.api a.address) (isLockout a.api a.address)
            since ((s.clock, Happening.checked a.api a.address false) :: s.log) = 0 := by
          apply countSince_eq_zero
          intro b hb
          have hle : b.1 ≤ s.clock := by
            rcases List.mem_cons.mp hb with rfl | hb
            · exact Int.le_refl _
            · exact h.logged b hb
          omega
        exact hzero.le.trans (Nat.zero_le _)
    · have hguesses := hkept.guesses api address since hsince
      rw [← countSince_skip (a := (s.clock, Happening.checked a.api a.address false)) rfl
        (hother api address hsame)] at hguesses
      exact hguesses
  · apply bounded_cons (hkept.few api address)
    intro hcounts _
    by_cases hsame : a.api = api ∧ a.address = address
    · obtain ⟨rfl, rfl⟩ := hsame
      have hguesses := h.guesses a.api a.address _ (Int.le_refl _)
      have hwindow : s.clock - (limits a.api).window ≤ s.clock := by
        rw [Limits.window, second]
        omega
      have hcount := hone _ hwindow
      have hbudget := hkept.budget a.api (addressKey a.api a.address)
      have hunder := toRecord_le lower (s.setPhase number a (.failing .address answer)) a.api
        a.address
      have hsum : countSince Prod.fst (isGuess a.api a.address) (isLockout a.api a.address)
          (s.clock - (limits a.api).window)
            ((s.clock, .checked a.api a.address false) :: s.log) ≤
          s.onRecord limits a.api (addressKey a.api a.address) +
            (s.setPhase number a (.failing .address answer)).toRecord a.api a.address := by
        rw [System.onRecord]
        omega
      exact hsum.trans ((Nat.add_le_add_left hunder _).trans hbudget)
    · have hnot := hother api address hsame
      exact absurd (hcounts.symm.trans hnot) (by decide)

/-- A verdict of acceptance comes from a password that matches. -/
theorem checked?_of_accepted {api : Api} {found : Lookup} (h : verdict api found = .accepted) :
    checked? api found = some true := by
  revert h
  cases found with
  | nobody => cases api <;> decide
  | user isActive hasPassword hashMatches =>
      cases api <;> cases isActive <;> cases hasPassword <;> cases hashMatches <;> decide

/-- A checked password is followed by a record. -/
theorem Kept.verify (h : Kept lower limits s) (hnumber : s.attempts[number]? = some a)
    (hphase : a.phase = .verifying) (found : Lookup) :
    Kept lower limits (s.verify number a found) := by
  have hmoves : ∀ phase : Phase, phase.failsAddress = true ∨ phase = .succeeding .address →
      Kept lower limits (s.setPhase number a phase) := by
    intro phase _
    exact h.setPhase hnumber (fun r _ => by rw [hphase]; rfl) fun hfails => by
      rw [hphase] at hfails
      cases hfails
  by_cases haccepted : verdict a.api found = .accepted
  · have hstate : s.verify number a found =
        (s.setPhase number a (.succeeding .address)).note (.checked a.api a.address true) := by
      unfold System.verify
      rw [checked?_of_accepted haccepted, haccepted]
      rfl
    rw [hstate]
    exact (hmoves _ (.inr rfl)).note (fun _ _ => decide_eq_false (by simp))
      fun _ _ => rfl
  · cases hchecked : checked? a.api found with
    | none =>
        have hstate : s.verify number a found =
            s.setPhase number a (.failing .address (verdict a.api found)) := by
          unfold System.verify
          rw [hchecked]
          cases hverdict : verdict a.api found with
          | accepted => exact absurd hverdict haccepted
          | _ => rfl
        rw [hstate]
        exact hmoves _ (.inl rfl)
    | some hashMatches =>
        have hstate : s.verify number a found =
            (s.note (.checked a.api a.address hashMatches)).setPhase number a
              (.failing .address (verdict a.api found)) := by
          unfold System.verify
          rw [hchecked]
          cases hverdict : verdict a.api found with
          | accepted => exact absurd hverdict haccepted
          | _ => rfl
        rw [hstate]
        cases hashMatches with
        | true =>
            have hnoted := (hmoves (.failing .address (verdict a.api found)) (.inl rfl)).note
              (b := .checked a.api a.address true)
              (fun _ _ => decide_eq_false (by simp)) fun _ _ => rfl
            exact hnoted
        | false => exact h.guess hnumber hphase _

theorem window_le {now : Int} (l : Limits) : now - l.window ≤ now := by
  rw [Limits.window, second]
  omega

/-- An attempt records a failure under one key, and does not hold that key any more. -/
structure Releases (a : Attempt) (phase : Phase) (r : Role) : Prop where
  holds : ∀ r', a.phase.holds r' = true ↔ phase.holds r' = true ∨ r' = r
  gone : phase.holds r = false
  failing : a.phase.failsAddress = true ↔ r = .address
  recorded : phase.failsAddress = false

section Record

variable {r : Role}

/-- Under the key of an address, a failure is not to be recorded any more. -/
theorem Releases.toRecord (hrel : Releases a phase r) (h : s.attempts[number]? = some a)
    (api : Api) (address : String) :
    (s.setPhase number a phase).toRecord api address +
        (if a.api = api ∧ a.key lower r = addressKey api address then 1 else 0) =
      s.toRecord api address := by
  have hrecord := toRecord_setPhase phase h api address
  have hnot : ({ a with phase := phase } : Attempt).toRecord api address = false := by
    simp [Attempt.toRecord, hrel.recorded]
  have hiff : (a.toRecord api address = true) ↔
      a.api = api ∧ a.key lower r = addressKey api address := by
    rw [Attempt.toRecord, decide_eq_true_eq, hrel.failing]
    constructor
    · rintro ⟨rfl, haddress, hrole⟩
      exact ⟨rfl, key_eq_addressKey_iff.mpr ⟨hrole, haddress⟩⟩
    · rintro ⟨rfl, hkey⟩
      obtain ⟨hrole, haddress⟩ := key_eq_addressKey_iff.mp hkey
      exact ⟨rfl, haddress, hrole⟩
  simp only [hnot, hiff] at hrecord
  simpa using hrecord

/-- An attempt that releases a key is no longer under way with it. -/
theorem Releases.underWay (hrel : Releases a phase r) (h : s.attempts[number]? = some a)
    (api : Api) (key : String) :
    (s.setPhase number a phase).underWay lower api key +
      (if a.api = api ∧ a.key lower r = key then 1 else 0) = s.underWay lower api key :=
  underWay_release h hrel.holds hrel.gone api key

/-- A failure goes on record, and the key is not locked. -/
theorem Kept.record (h : Kept lower limits s) (hnumber : s.attempts[number]? = some a)
    (hrel : Releases a phase r) :
    Kept lower limits ((s.setPhase number a phase).setEntry a.api (a.key lower r)
      ((s.limiter a.api).attempts (limits a.api) s.clock (a.key lower r)) none) := by
  have hunder : ∀ api key, (s.setPhase number a phase).underWay lower api key + _ = _ :=
    hrel.underWay hnumber
  have hrecord : ∀ api address, _ + (if a.api = api ∧ a.key lower r = addressKey api address
      then 1 else 0) = s.toRecord api address := hrel.toRecord hnumber
  have hsorted := h.sorted a.api (a.key lower r)
  have hpast := h.past a.api (a.key lower r)
  refine ⟨h.logged, fun api key => ?_, fun api key => ?_, fun api key hlock => ?_,
    fun api key => ?_, fun api address since hsince => ?_, h.few⟩
  · rw [setEntry_failures]
    split
    · exact Limiter.attempts_sorted hsorted hpast
    · exact h.sorted api key
  · rw [setEntry_failures]
    split
    · exact Limiter.attempts_past hpast
    · exact h.past api key
  · rw [setEntry_lockedUntil] at hlock
    rw [setEntry_failures]
    split at hlock
    · exact absurd rfl hlock
    · next hother =>
      rw [if_neg hother]
      obtain ⟨hnone, hzero⟩ := h.locks api key hlock
      refine ⟨hnone, ?_⟩
      have hcount := hunder api key
      rw [hzero] at hcount
      exact (Nat.add_eq_zero_iff.mp hcount).1
  · have hbudget := h.budget api key
    have hcount := hunder api key
    rw [System.onRecord, setEntry_failuresSince]
    by_cases hsame : a.api = api ∧ a.key lower r = key
    · obtain ⟨rfl, rfl⟩ := hsame
      rw [if_pos ⟨rfl, rfl⟩] at hcount ⊢
      have hone := Limiter.attempts_countP (limits a.api) hsorted hpast (Int.le_refl _)
      have hle : s.clock - (limits a.api).window ≤ s.clock := window_le _
      rw [if_pos hle] at hone
      have hgoal : (s.limiter a.api).failuresSince (a.key lower r)
          (s.clock - (limits a.api).window) + 1 +
            (s.setPhase number a phase).underWay lower a.api (a.key lower r) ≤
              (limits a.api).maxAttempts := by
        rw [System.onRecord] at hbudget
        omega
      rw [← hone] at hgoal
      exact hgoal
    · rw [if_neg hsame] at hcount
      rw [if_neg fun heq => hsame ⟨heq.1.symm, heq.2.symm⟩]
      have hgoal : s.onRecord limits api key +
          (s.setPhase number a phase).underWay lower api key ≤ (limits api).maxAttempts := by
        omega
      exact hgoal
  · have hguesses := h.guesses api address since hsince
    have hcount := hrecord api address
    rw [setEntry_failuresSince]
    by_cases hsame : a.api = api ∧ a.key lower r = addressKey api address
    · obtain ⟨rfl, hkey⟩ := hsame
      rw [if_pos ⟨rfl, hkey⟩] at hcount
      rw [if_pos ⟨rfl, hkey.symm⟩]
      have hone := Limiter.attempts_countP (limits a.api) hsorted hpast hsince
      rw [hkey] at hone ⊢
      by_cases hlate : since ≤ s.clock
      · rw [if_pos hlate] at hone
        have hgoal : countSince Prod.fst (isGuess a.api address) (isLockout a.api address) since
            s.log ≤ (s.limiter a.api).failuresSince (addressKey a.api address) since + 1 +
              (s.setPhase number a phase).toRecord a.api address := by
          omega
        rw [← hone] at hgoal
        exact hgoal
      · have hzero : countSince Prod.fst (isGuess a.api address) (isLockout a.api address) since
            s.log = 0 := by
          apply countSince_eq_zero
          intro b hb
          have hle := h.logged b hb
          omega
        exact hzero.le.trans (Nat.zero_le _)
    · rw [if_neg hsame] at hcount
      rw [if_neg fun heq => hsame ⟨heq.1.symm, heq.2.symm⟩]
      have hgoal : countSince Prod.fst (isGuess api address) (isLockout api address) since s.log ≤
          (s.limiter api).failuresSince (addressKey api address) since +
            (s.setPhase number a phase).toRecord api address := by
        omega
      exact hgoal

/-- A failure locks its key, and nobody else is under way for it. -/
theorem Kept.lock (h : Kept lower limits s) (hnumber : s.attempts[number]? = some a)
    (hrel : Releases a phase r)
    (hfull : (limits a.api).maxAttempts ≤
      ((s.limiter a.api).attempts (limits a.api) s.clock (a.key lower r)).length)
    (deadline : Int) :
    Kept lower limits (((s.setPhase number a phase).setEntry a.api (a.key lower r)
      [] (some deadline)).note (.locked a.api (a.key lower r))) := by
  have hunder : ∀ api key, (s.setPhase number a phase).underWay lower api key + _ = _ :=
    hrel.underWay hnumber
  have hrecord : ∀ api address, _ + (if a.api = api ∧ a.key lower r = addressKey api address
      then 1 else 0) = s.toRecord api address := hrel.toRecord hnumber
  have hlength := Limiter.attempts_length (limits a.api)
    (h.sorted a.api (a.key lower r)) (h.past a.api (a.key lower r))
  -- the failures on record and the attempts under way are within the limit, and this was one
  have halone : (s.setPhase number a phase).underWay lower a.api (a.key lower r) = 0 := by
    have hbudget := h.budget a.api (a.key lower r)
    have hcount := hunder a.api (a.key lower r)
    rw [if_pos ⟨rfl, rfl⟩] at hcount
    rw [System.onRecord] at hbudget
    omega
  refine ⟨fun b hb => ?_, fun api key => ?_, fun api key => ?_, fun api key hlock => ?_,
    fun api key => ?_, fun api address since hsince => ?_, fun api address => ?_⟩
  · rcases List.mem_cons.mp hb with rfl | hb
    · exact Int.le_refl _
    · exact h.logged b hb
  · change (((s.setPhase number a phase).setEntry a.api (a.key lower r) [] (some deadline)).limiter
      api |>.failures key).Pairwise (· ≤ ·)
    rw [setEntry_failures]
    split
    · exact List.Pairwise.nil
    · exact h.sorted api key
  · change ∀ t ∈ (((s.setPhase number a phase).setEntry a.api (a.key lower r) []
      (some deadline)).limiter api).failures key, t ≤ s.clock
    rw [setEntry_failures]
    split
    · exact fun t ht => nomatch ht
    · exact h.past api key
  · change (((s.setPhase number a phase).setEntry a.api (a.key lower r) []
      (some deadline)).limiter api).lockedUntil key ≠ none at hlock
    change (((s.setPhase number a phase).setEntry a.api (a.key lower r) []
      (some deadline)).limiter api).failures key = [] ∧
        (s.setPhase number a phase).underWay lower api key = 0
    rw [setEntry_failures]
    by_cases hsame : api = a.api ∧ key = a.key lower r
    · rw [if_pos hsame, hsame.1, hsame.2]
      exact ⟨rfl, halone⟩
    · rw [setEntry_lockedUntil, if_neg hsame] at hlock
      rw [if_neg hsame]
      obtain ⟨hnone, hzero⟩ := h.locks api key hlock
      have hcount := hunder api key
      rw [hzero] at hcount
      exact ⟨hnone, (Nat.add_eq_zero_iff.mp hcount).1⟩
  · change (((s.setPhase number a phase).setEntry a.api (a.key lower r) []
      (some deadline)).limiter api).failuresSince key (s.clock - (limits api).window) +
        (s.setPhase number a phase).underWay lower api key ≤ (limits api).maxAttempts
    have hbudget := h.budget api key
    have hcount := hunder api key
    rw [System.onRecord] at hbudget
    rw [setEntry_failuresSince]
    split
    · rw [List.countP_nil]
      omega
    · have hgoal : (s.limiter api).failuresSince key (s.clock - (limits api).window) +
          (s.setPhase number a phase).underWay lower api key ≤ (limits api).maxAttempts := by
        omega
      exact hgoal
  · change countSince Prod.fst (isGuess api address) (isLockout api address) since
      ((s.clock, .locked a.api (a.key lower r)) :: s.log) ≤
        (((s.setPhase number a phase).setEntry a.api (a.key lower r) []
          (some deadline)).limiter api).failuresSince (addressKey api address) since +
            (s.setPhase number a phase).toRecord api address
    by_cases hsame : a.api = api ∧ a.key lower r = addressKey api address
    · have hstop : isLockout api address (s.clock, .locked a.api (a.key lower r)) = true := by
        rw [isLockout, hsame.1, hsame.2]
        exact decide_eq_true rfl
      rw [countSince_stop hstop]
      exact Nat.zero_le _
    · have hskip : isLockout api address (s.clock, .locked a.api (a.key lower r)) = false := by
        apply decide_eq_false
        intro heq
        injection heq with hapi hkey
        exact hsame ⟨hapi, hkey⟩
      have hguesses := h.guesses api address since hsince
      have hcount := hrecord api address
      rw [if_neg hsame] at hcount
      rw [countSince_skip hskip (decide_eq_false fun heq => nomatch heq), setEntry_failuresSince,
        if_neg fun heq => hsame ⟨heq.1.symm, heq.2.symm⟩]
      have hgoal : countSince Prod.fst (isGuess api address) (isLockout api address) since s.log ≤
          (s.limiter api).failuresSince (addressKey api address) since +
            (s.setPhase number a phase).toRecord api address := by
        omega
      exact hgoal
  · apply bounded_cons (h.few api address)
    intro hcounts
    exact absurd hcounts (by simp [isGuess])

end Record

/-- A failure that is recorded keeps the counts. -/
theorem Kept.fail (h : Kept lower limits s) (hnumber : s.attempts[number]? = some a) {r : Role}
    {answer : Answer} (hphase : a.phase = .failing r answer) :
    Kept lower limits (s.fail lower limits number a r answer) := by
  have hrecorded : ∀ phase, Releases a phase r → Kept lower limits
      ((if (limits a.api).maxAttempts ≤
          ((s.limiter a.api).attempts (limits a.api) s.clock (a.key lower r)).length then
        (s.setLimiter a.api ((s.limiter a.api).recordFailure (limits a.api) s.clock
          (a.key lower r))).note (.locked a.api (a.key lower r))
        else s.setLimiter a.api ((s.limiter a.api).recordFailure (limits a.api) s.clock
          (a.key lower r))).setPhase number a phase) := by
    intro phase hrel
    by_cases hfull : (limits a.api).maxAttempts ≤
        ((s.limiter a.api).attempts (limits a.api) s.clock (a.key lower r)).length
    · rw [if_pos hfull, Limiter.recordFailure, if_pos hfull]
      exact h.lock hnumber hrel hfull _
    · have hfree : (s.limiter a.api).lockedUntil (a.key lower r) = none := by
        by_contra hlocked
        have hzero := (h.locks a.api (a.key lower r) hlocked).2
        have hpos : 0 < s.underWay lower a.api (a.key lower r) :=
          underWay_pos hnumber ((hrel.holds r).mpr (.inr rfl))
        omega
      have hkept := h.record hnumber hrel
      rw [if_neg hfull, Limiter.recordFailure, if_neg hfull]
      rw [System.setEntry, ← hfree] at hkept
      have hself : Function.update ((s.setPhase number a phase).limiter a.api).lockedUntil
          (a.key lower r) ((s.limiter a.api).lockedUntil (a.key lower r)) =
            (s.limiter a.api).lockedUntil := Function.update_eq_self _ _
      rw [hself] at hkept
      exact hkept
  cases r with
  | address =>
      refine hrecorded (.failing .account answer) ⟨fun r' => ?_, rfl, ?_, rfl⟩
      · rw [hphase]
        cases r' <;> simp [Phase.holds]
      · rw [hphase]
        exact ⟨fun _ => rfl, fun _ => rfl⟩
  | account =>
      refine hrecorded (.done answer) ⟨fun r' => ?_, rfl, ?_, rfl⟩
      · rw [hphase]
        cases r' <;> simp [Phase.holds]
      · rw [hphase]
        exact ⟨fun hfails => (nomatch hfails), fun hrole => nomatch hrole⟩

/-- A success keeps what is on record, where it clears no counter of others. -/
theorem Kept.succeed (h : Kept lower limits s) (hnumber : s.attempts[number]? = some a) {r : Role}
    (hphase : a.phase = .succeeding r)
    (hnone : r = .address → s.onRecord limits a.api (a.key lower .address) = 0) :
    Kept lower limits (s.succeed lower number a r) := by
  have hforget : ∀ phase : Phase, (∀ r', phase.holds r' = true → a.phase.holds r' = true) →
      Kept lower limits ((s.setPhase number a phase).setLimiter a.api
        (((s.setPhase number a phase).limiter a.api).forget (a.key lower r))) := by
    intro phase hold
    have hkept : Kept lower limits (s.setPhase number a phase) :=
      h.setPhase hnumber hold fun hfails => by
        rw [hphase] at hfails
        exact nomatch hfails
    apply hkept.forget
    intro address hkey
    have hrole := (key_eq_addressKey_iff.mp hkey).1
    have hzero := hnone hrole
    rw [hrole]
    exact hzero
  cases r with
  | address => exact hforget (.succeeding .account) fun _ _ => by rw [hphase]; rfl
  | account => exact hforget (.done .accepted) fun _ hr' => nomatch hr'

/-- Every careful step keeps the counts. -/
theorem Kept.step (h : Kept lower limits s) (e : Event) (hcareful : Careful lower limits s e) :
    Kept lower limits (s.step lower limits e) := by
  cases e with
  | wait nanoseconds => exact h.wait nanoseconds
  | arrive api address username => exact h.arrive api address username
  | advance number found =>
      cases hnumber : s.attempts[number]? with
      | none =>
          have hsame : s.step lower limits (.advance number found) = s := by
            simp only [System.step, hnumber]
          rw [hsame]
          exact h
      | some a =>
          have hmove : s.step lower limits (.advance number found) =
              s.move lower limits number a found := by
            simp only [System.step, hnumber]
          obtain ⟨hroom, hclear⟩ := hcareful a hnumber
          rw [hmove, System.move]
          cases hphase : a.phase with
          | checking r => exact h.check hnumber hphase (hroom r hphase)
          | verifying => exact h.verify hnumber hphase found
          | failing r answer => exact h.fail hnumber hphase
          | succeeding r =>
              refine h.succeed hnumber hphase fun hrole => ?_
              rw [hrole] at hphase
              exact hclear hphase
          | done answer => exact h

/-- An attempt that checks a password is under way for both keys, which are not locked then. -/
theorem Kept.noGuessWhileLocked (h : Kept lower limits s) (e : Event) :
    NoGuessWhileLocked lower s e := by
  cases e with
  | wait nanoseconds => trivial
  | arrive api address username => trivial
  | advance number found =>
      rintro a hnumber hphase - r ⟨deadline, hlocked, -⟩
      have hpos : 0 < s.underWay lower a.api (a.key lower r) :=
        underWay_pos hnumber (by rw [hphase]; rfl)
      have hzero := (h.locks a.api (a.key lower r) (by rw [hlocked]; simp)).2
      omega

/-- **The throttle bounds guessing** in every run whose steps are all careful. -/
theorem few_guesses (lower : String → String) (limits : Api → Limits) (clock : Int)
    (events : List Event)
    (hcareful : Along (System.step lower limits) (Careful lower limits) (start clock) events) :
    Throughout (System.step lower limits)
        (fun s => (∀ api address, s.FewGuesses limits api address) ∧ s.HonestWaits)
        (start clock) events ∧
      Along (System.step lower limits) (NoGuessWhileLocked lower) (start clock) events := by
  have hkept : Throughout (System.step lower limits) (Kept lower limits) (start clock) events :=
    throughout_of_invariant _ (fun s e h hc => h.step e hc) (kept_start clock) hcareful
  constructor
  · refine throughout_mono _ (fun s h => ⟨h.few, ?_⟩) hkept
    intro api key deadline hlocked
    exact Limiter.retryAfter_covers hlocked
  · exact along_of_invariant _ (fun s e h hc => ⟨h.noGuessWhileLocked e, h.step e hc⟩)
      (kept_start clock) hcareful

end Throttle

/-! ### Runs -/

/-- Two failures in five minutes lock a key for five minutes. -/
def twoAttempts (_ : Api) : Limits := ⟨2, 300, 300⟩

/-- An attempt that takes all its steps at once. -/
def wholeAttempt (number : Nat) (username : String) (found : Lookup) : List Event :=
  .arrive .web "192.0.2.1" username :: List.replicate 5 (.advance number found)

/-- Two guesses lock the address, and the third one is turned away. -/
def threeGuesses : List Event :=
  wholeAttempt 0 "root" (.user true true false) ++ .wait 5 ::
    (wholeAttempt 1 "root" (.user true true false) ++
      wholeAttempt 2 "admin" (.user true true false))

/-- The theorem applies to three guesses of two that are allowed. -/
theorem few_guesses_of_three :
    Throughout (System.step id twoAttempts)
        (fun s => (∀ api address, s.FewGuesses twoAttempts api address) ∧ s.HonestWaits)
        (start 0) threeGuesses ∧
      Along (System.step id twoAttempts) (NoGuessWhileLocked id) (start 0) threeGuesses :=
  few_guesses id twoAttempts 0 threeGuesses (by decide)

/-- After each guess at an account, the attacker logs in to his own. -/
def ownAccount : List Event :=
  wholeAttempt 0 "root" (.user true true false) ++
    (wholeAttempt 1 "mallory" (.user true true true) ++
      (wholeAttempt 2 "admin" (.user true true false) ++
        (wholeAttempt 3 "mallory" (.user true true true) ++
          wholeAttempt 4 "guest" (.user true true false))))

/-- Logging in to an account of one's own takes the failures away. -/
theorem own_account_resets :
    ¬ (after (System.step id twoAttempts) (start 0) ownAccount).FewGuesses twoAttempts .web
      "192.0.2.1" := by
  have hlog : (after (System.step id twoAttempts) (start 0) ownAccount).log =
      [(0, .checked .web "192.0.2.1" false), (0, .checked .web "192.0.2.1" true),
        (0, .checked .web "192.0.2.1" false), (0, .checked .web "192.0.2.1" true),
        (0, .checked .web "192.0.2.1" false)] := by
    decide
  intro hfew
  rw [System.FewGuesses, hlog] at hfew
  have hcount := hfew _ (List.infix_refl _) (by decide) (by decide)
  exact absurd hcount (by decide)

/-- Three attempts are let through before the first two of them record that they failed. -/
def atOnce : List Event :=
  (List.range 3).flatMap (fun number => [.arrive .web "192.0.2.1" "root",
    .advance number .nobody, .advance number .nobody]) ++
    (List.range 3).flatMap fun number =>
      List.replicate 3 (.advance number (.user true true false))

/-- The throttle is outrun with an account of one's own, and by attempts at once. -/
theorem throttle_is_outrun :
    ¬ (after (System.step id twoAttempts) (start 0) ownAccount).FewGuesses twoAttempts .web
        "192.0.2.1" ∧
      ¬ Along (System.step id twoAttempts) (NoGuessWhileLocked id) (start 0) atOnce :=
  ⟨own_account_resets, by decide⟩

end AdguardAdmin.LoginThrottle
