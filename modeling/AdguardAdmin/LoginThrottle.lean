import AdguardAdmin.RateLimiter
import AdguardAdmin.RunLaws
import AdguardAdmin.WindowCount
/-!
# Throttled logins

Web logins and requests to the compatible API run in threads of their own.  An attempt asks the
limiter of its API about its address and its account, looks the account up, checks the password,
and records under both keys whether it failed or succeeded.  Every call of a limiter is one
step, the check of a password is another one, and the attempts take their steps in any order.

The log remembers the checks of passwords and the lockouts, the newest first.
-/

namespace AdguardAdmin.LoginThrottle

open RateLimiter (Limits Limiter second)
open RunLaws

/-! ## Attempts -/

inductive Api where
  | web
  | compat
  deriving DecidableEq, Repr

/-- The two keys of an attempt, in the order in which they are gone through. -/
inductive Role where
  | address
  | account
  deriving DecidableEq, Repr

inductive Answer where
  /-- 429 with a `Retry-After`. -/
  | throttled (retryAfter : Int)
  | incorrect
  | disabled
  | accepted
  deriving DecidableEq, Repr

inductive Phase where
  | checking (r : Role)
  | verifying
  | failing (r : Role) (answer : Answer)
  | succeeding (r : Role)
  | done (answer : Answer)
  deriving DecidableEq, Repr

structure Attempt where
  api : Api
  address : String
  username : String
  phase : Phase
  deriving DecidableEq, Repr

/-- What is found under a username, and whether the password matches the stored hash. -/
inductive Lookup where
  | nobody
  | user (isActive hasPassword hashMatches : Bool)
  deriving DecidableEq, Repr

def addressKey : Api → String → String
  | .web, address => "ip:" ++ address
  | .compat, address => "compat-ip:" ++ address

section Throttle

-- `lower` is Python's `str.lower`
variable (lower : String → String)

def accountKey : Api → String → String
  | .web, username => "user:" ++ lower username
  | .compat, username => "compat-user:" ++ lower username

def Attempt.key (a : Attempt) : Role → String
  | .address => addressKey a.api a.address
  | .account => accountKey lower a.api a.username

/-- Whether a password is checked, and if so, whether it matches.  The web login does so for a
disabled account, too. -/
def checked? : Api → Lookup → Option Bool
  | _, .nobody => none
  | .web, .user _ hasPassword hashMatches => if hasPassword then some hashMatches else none
  | .compat, .user isActive hasPassword hashMatches =>
      if isActive ∧ hasPassword then some hashMatches else none

/-- What comes of a lookup. -/
def verdict : Api → Lookup → Answer
  | _, .nobody => .incorrect
  | .web, .user isActive hasPassword hashMatches =>
      if ¬ hasPassword ∨ ¬ hashMatches then .incorrect
      else if ¬ isActive then .disabled
      else .accepted
  | .compat, .user isActive hasPassword hashMatches =>
      if ¬ isActive ∨ ¬ hasPassword ∨ ¬ hashMatches then .incorrect else .accepted

/-! ## The system -/

inductive Happening where
  | checked (api : Api) (address : String) (hashMatches : Bool)
  | locked (api : Api) (key : String)
  deriving DecidableEq, Repr

structure System where
  limiter : Api → Limiter
  attempts : List Attempt
  clock : Int
  log : List (Int × Happening)

inductive Event where
  | wait (nanoseconds : Nat)
  | arrive (api : Api) (address username : String)
  /-- The attempt with a number takes its next step; what it finds counts if it looks its
  account up. -/
  | advance (number : Nat) (found : Lookup)

-- `limits` are the settings of the two limiters
variable (limits : Api → Limits)

namespace System

variable (s : System)

def setPhase (number : Nat) (a : Attempt) (phase : Phase) : System :=
  { s with attempts := s.attempts.set number { a with phase := phase } }

def setLimiter (api : Api) (l : Limiter) : System :=
  { s with limiter := Function.update s.limiter api l }

def note (h : Happening) : System := { s with log := (s.clock, h) :: s.log }

/-- One key is asked for. -/
def check (number : Nat) (a : Attempt) (r : Role) : System :=
  let answer := (s.limiter a.api).retryAfter s.clock (a.key lower r)
  let s := s.setLimiter a.api answer.2
  if answer.1 ≠ 0 then s.setPhase number a (.done (.throttled answer.1))
  else
    match r with
    | .address => s.setPhase number a (.checking .account)
    | .account => s.setPhase number a .verifying

def verify (number : Nat) (a : Attempt) (found : Lookup) : System :=
  let s :=
    match checked? a.api found with
    | some hashMatches => s.note (.checked a.api a.address hashMatches)
    | none => s
  match verdict a.api found with
  | .accepted => s.setPhase number a (.succeeding .address)
  | answer => s.setPhase number a (.failing .address answer)

/-- A failure under one key is recorded. -/
def fail (number : Nat) (a : Attempt) (r : Role) (answer : Answer) : System :=
  let l := s.limiter a.api
  let key := a.key lower r
  let locks := (limits a.api).maxAttempts ≤ (l.attempts (limits a.api) s.clock key).length
  let s := s.setLimiter a.api (l.recordFailure (limits a.api) s.clock key)
  let s := if locks then s.note (.locked a.api key) else s
  match r with
  | .address => s.setPhase number a (.failing .account answer)
  | .account => s.setPhase number a (.done answer)

/-- A success under one key is recorded. -/
def succeed (number : Nat) (a : Attempt) (r : Role) : System :=
  let s := s.setLimiter a.api ((s.limiter a.api).recordSuccess (a.key lower r))
  match r with
  | .address => s.setPhase number a (.succeeding .account)
  | .account => s.setPhase number a (.done .accepted)

def move (number : Nat) (a : Attempt) (found : Lookup) : System :=
  match a.phase with
  | .checking r => s.check lower number a r
  | .verifying => s.verify number a found
  | .failing r answer => s.fail lower limits number a r answer
  | .succeeding r => s.succeed lower number a r
  | .done _ => s

def step : Event → System
  | .wait nanoseconds => { s with clock := s.clock + nanoseconds }
  | .arrive api address username =>
      { s with attempts := s.attempts ++ [⟨api, address, username, .checking .address⟩] }
  | .advance number found =>
      match s.attempts[number]? with
      | none => s
      | some a => s.move lower limits number a found

end System

/-- Nobody has tried to log in. -/
def start (clock : Int) : System := ⟨fun _ => RateLimiter.idle, [], clock, []⟩

/-! ## What is promised -/

/-- A password was checked for an address, and did not match. -/
def isGuess (api : Api) (address : String) (h : Int × Happening) : Bool :=
  h.2 = .checked api address false

def isLockout (api : Api) (address : String) (h : Int × Happening) : Bool :=
  h.2 = .locked api (addressKey api address)

/-- In no window in which an address is not locked out there are more guesses than allowed. -/
def System.FewGuesses (s : System) (api : Api) (address : String) : Prop :=
  WindowCount.Bounded Prod.fst (isGuess api address) (isLockout api address)
    (limits api).window (limits api).maxAttempts s.log

/-- Whoever asks is told to wait as long as a lockout lasts. -/
def System.HonestWaits (s : System) : Prop :=
  ∀ api key deadline, (s.limiter api).lockedUntil key = some deadline →
    deadline - s.clock ≤ ((s.limiter api).retryAfter s.clock key).1 * second

/-- A step does not check a password for a locked key. -/
def NoGuessWhileLocked (s : System) : Event → Prop
  | .advance number found => ∀ a ∈ s.attempts[number]?, a.phase = .verifying →
      (checked? a.api found).isSome → ∀ r, ¬ (s.limiter a.api).Locked s.clock (a.key lower r)
  | _ => True

/-! ## The condition -/

/-- The keys that an attempt has been let through for and has not recorded anything under. -/
def Phase.holds : Phase → Role → Bool
  | .checking .address, _ => false
  | .checking .account, r => r = .address
  | .verifying, _ => true
  | .failing .address _, _ | .succeeding .address, _ => true
  | .failing .account _, r | .succeeding .account, r => r = .account
  | .done _, _ => false

def Attempt.holdsKey (a : Attempt) (api : Api) (key : String) : Bool :=
  a.api = api ∧ ((a.phase.holds .address ∧ a.key lower .address = key) ∨
    (a.phase.holds .account ∧ a.key lower .account = key))

/-- The attempts under way for a key. -/
def System.underWay (s : System) (api : Api) (key : String) : Nat :=
  s.attempts.countP fun a => a.holdsKey lower api key

/-- The failures on record for a key that are still in the window. -/
def System.onRecord (s : System) (api : Api) (key : String) : Nat :=
  (s.limiter api).failuresSince key (s.clock - (limits api).window)

/-- An attempt passes a limiter only while the failures on record and the attempts under way
leave room for one more failure, and one succeeds only for an address without failures. -/
def Careful (s : System) : Event → Prop
  | .advance number _ => ∀ a ∈ s.attempts[number]?,
      (∀ r, a.phase = .checking r → ¬ (s.limiter a.api).Locked s.clock (a.key lower r) →
        s.onRecord limits a.api (a.key lower r) + s.underWay lower a.api (a.key lower r) <
          (limits a.api).maxAttempts) ∧
      (a.phase = .succeeding .address → s.onRecord limits a.api (a.key lower .address) = 0)
  | _ => True

instance (p : Role → Prop) [DecidablePred p] : Decidable (∀ r, p r) :=
  decidable_of_iff (p .address ∧ p .account)
    ⟨fun h r => match r with | .address => h.1 | .account => h.2, fun h => ⟨h _, h _⟩⟩

instance (s : System) : DecidablePred (NoGuessWhileLocked lower s)
  | .wait _ | .arrive .. => isTrue trivial
  | .advance number _ =>
      inferInstanceAs (Decidable (∀ a ∈ s.attempts[number]?, _ → _ → ∀ _, ¬ _))

instance (s : System) : DecidablePred (Careful lower limits s)
  | .wait _ | .arrive .. => isTrue trivial
  | .advance number _ =>
      inferInstanceAs (Decidable (∀ a ∈ s.attempts[number]?, (∀ _, _ → _ → _) ∧ (_ → _)))

end Throttle

end AdguardAdmin.LoginThrottle
