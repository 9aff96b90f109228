import AdguardAdmin.RunLaws
import AdguardAdmin.SyncPass
import AdguardAdmin.Updater
/-!
# The history of upgrades

Passes look at a server at one moment and upgrade it at a later one; other passes come
in between.  The row says how the last of them ended.  The history below also keeps the
ones before, and with it two promises can be stated:

* `backs_off` — a version whose upgrade failed is left alone for a while, where nothing else is
  recorded over the failure and passes go by what the row says now;
* `not_repeated_iff` — a version that was installed is not installed again, exactly where the
  server is seen to run it.
-/

namespace AdguardAdmin.Updater

open RunLaws

/-! ## Passes over a server -/

/-- A pass that found the server due, with the row as it was then. -/
structure Pass where
  force : Bool
  lookedAt : Nat
  seen : Row
  deriving DecidableEq, Repr

/-- A request for an upgrade that went out, and how it ended. -/
structure Request where
  automatic : Bool
  target : Option String
  sentAt : Nat
  state : UpdateState
  attemptedVersion : Option String
  recordedAt : Nat
  deriving DecidableEq, Repr

structure Fleet where
  row : Row
  passes : List Pass
  requests : List Request
  deriving DecidableEq, Repr

inductive Event where
  | look (force : Bool) (now : Nat)
  /-- Pass `k` has its turn. -/
  | upgrade (k : Nat) (sentAt recordedAt : Nat) (r : Replies)
  /-- Another operation holds the lock of the server. -/
  | busy (k : Nat)
  | reconcile (updates : ServerUpdates)
  deriving DecidableEq

def start (row : Row) : Fleet := ⟨row, [], []⟩

section Runs

variable (settings : Settings)

namespace Fleet

/-- The pass whose turn it is; clocks do not go back. -/
def turn (s : Fleet) (k sentAt recordedAt : Nat) : Option Pass :=
  (s.passes[k]?).filter fun p => p.lookedAt ≤ sentAt && sentAt ≤ recordedAt

/-- The request that an event sends. -/
def request (s : Fleet) : Event → Option Request
  | .upgrade k sentAt recordedAt r =>
      (s.turn k sentAt recordedAt).bind fun p =>
        let a := attempt s.row r
        if a.sent then
          some ⟨!p.force, a.target, sentAt, a.state, a.attemptedVersion, recordedAt⟩
        else none
  | _ => none

def step (s : Fleet) (e : Event) : Fleet :=
  match e with
  | .look force now =>
      if due settings force s.row now then { s with passes := s.passes ++ [⟨force, now, s.row⟩] }
      else s
  | .upgrade k sentAt recordedAt r =>
      match s.turn k sentAt recordedAt with
      | some _ =>
          { row := record s.row (attempt s.row r) recordedAt
            passes := s.passes.eraseIdx k
            requests := s.requests ++ (s.request e).toList }
      | none => s
  | .busy k => { s with passes := s.passes.eraseIdx k }
  | .reconcile updates => { s with row := applyUpdates s.row updates }

end Fleet

/-- A step adds its request, if it makes one. -/
theorem step_requests (s : Fleet) (e : Event) :
    (s.step settings e).requests = s.requests ++ (s.request e).toList := by
  cases e with
  | look force now =>
      simp only [Fleet.step, Fleet.request]
      split <;> simp
  | upgrade k sentAt recordedAt r =>
      simp only [Fleet.step]
      split
      · rfl
      · rename_i hnone
        simp [Fleet.request, hnone]
  | busy k => simp [Fleet.step, Fleet.request]
  | reconcile updates => simp [Fleet.step, Fleet.request]

/-! ## What an automatic pass goes by -/

namespace Fleet

/-- The automatic pass whose turn it is, when its request goes out, and the release that
the server reports to it. -/
def offered (s : Fleet) : Event → Option (Pass × Nat × Offer)
  | .upgrade k sentAt recordedAt r =>
      ((s.turn k sentAt recordedAt).filter fun p => !p.force).bind fun p =>
        r.offer.map fun o => (p, sentAt, o)
  | _ => none

end Fleet

/-- What an automatic turn is offered. -/
theorem offered_eq_some {s : Fleet} {e : Event} {p : Pass} {sentAt : Nat} {o : Offer} :
    s.offered e = some (p, sentAt, o) ↔
      ∃ k recordedAt r, e = .upgrade k sentAt recordedAt r ∧ s.turn k sentAt recordedAt = some p ∧
        p.force = false ∧ r.offer = some o := by
  cases e with
  | upgrade k sent recordedAt r =>
      simp only [Fleet.offered, Option.bind_eq_some_iff, Option.filter_eq_some_iff,
        Option.map_eq_some_iff]
      constructor
      · intro h
        obtain ⟨p', ⟨hturn, hforce⟩, o', hoffer, heq⟩ := h
        cases heq
        exact ⟨k, recordedAt, r, rfl, hturn, by simpa using hforce, hoffer⟩
      · intro h
        obtain ⟨k', recordedAt', r', he, hturn, hforce, hoffer⟩ := h
        cases he
        exact ⟨p, ⟨hturn, by simpa using hforce⟩, o, hoffer, rfl⟩
  | look force now => simp [Fleet.offered]
  | busy k => simp [Fleet.offered]
  | reconcile updates => simp [Fleet.offered]

/-- The pass of an offer has begun, is automatic and has looked before. -/
theorem pass_of_offered {s : Fleet} {e : Event} {p : Pass} {sentAt : Nat} {o : Offer}
    (h : s.offered e = some (p, sentAt, o)) :
    p ∈ s.passes ∧ p.force = false ∧ p.lookedAt ≤ sentAt := by
  obtain ⟨k, recordedAt, r, -, hturn, hforce, -⟩ := offered_eq_some.mp h
  obtain ⟨hpass, htimes⟩ := Option.filter_eq_some_iff.mp hturn
  simp only [Bool.and_eq_true, decide_eq_true_eq] at htimes
  exact ⟨List.mem_of_getElem? hpass, hforce, htimes.1⟩

/-- **Automatic requests are for offers that are not recognised.** -/
theorem request_automatic {s : Fleet} {e : Event} {t : String} {sentAt : Nat} :
    (∃ q, s.request e = some q ∧ q.automatic = true ∧ q.target = some t ∧ q.sentAt = sentAt) ↔
      ∃ p o, s.offered e = some (p, sentAt, o) ∧ o.target = t ∧ ¬ Recognised s.row o := by
  constructor
  · intro h
    obtain ⟨q, hq, hautomatic, htarget, rfl⟩ := h
    cases e with
    | upgrade k sent recordedAt r =>
        obtain ⟨p, hturn, hq⟩ := Option.bind_eq_some_iff.mp hq
        dsimp only at hq
        split at hq
        · rename_i hsent
          cases hq
          obtain ⟨o, hoffer, ho, hnew⟩ := attempt_sent.mp ⟨hsent, htarget⟩
          refine ⟨p, o, offered_eq_some.mpr ⟨k, recordedAt, r, rfl, hturn, ?_, hoffer⟩, ho, hnew⟩
          simpa using hautomatic
        · cases hq
    | look force now => cases hq
    | busy k => cases hq
    | reconcile updates => cases hq
  · intro h
    obtain ⟨p, o, hoffered, ho, hnew⟩ := h
    obtain ⟨k, recordedAt, r, rfl, hturn, hforce, hoffer⟩ := offered_eq_some.mp hoffered
    obtain ⟨hsent, htarget⟩ := attempt_sent.mpr ⟨o, hoffer, ho, hnew⟩
    refine ⟨⟨!p.force, (attempt s.row r).target, sentAt, (attempt s.row r).state,
      (attempt s.row r).attemptedVersion, recordedAt⟩, ?_, by simp [hforce], htarget, rfl⟩
    simp [Fleet.request, hturn, hsent]

/-- Every automatic pass found the server due when it looked. -/
def Looked (s : Fleet) : Prop :=
  ∀ p ∈ s.passes, p.force = false → skipReason settings p.seen p.lookedAt = none

/-- Every step leaves the passes behind what they looked at. -/
theorem looked_step (s : Fleet) (e : Event) (h : Looked settings s) :
    Looked settings (s.step settings e) := by
  have hfewer : ∀ k, ∀ p ∈ s.passes.eraseIdx k, p.force = false →
      skipReason settings p.seen p.lookedAt = none :=
    fun k p hp => h p (List.mem_of_mem_eraseIdx hp)
  cases e with
  | look force now =>
      simp only [Fleet.step]
      split
      · rename_i hdue
        intro p hp hforce
        rcases List.mem_append.mp hp with hp | hp
        · exact h p hp hforce
        · obtain rfl := List.mem_singleton.mp hp
          replace hforce : force = false := hforce
          simp only [due, hforce, Bool.false_eq_true, if_false, Bool.and_eq_true,
            Option.isNone_iff_eq_none] at hdue
          exact hdue.2
      · exact h
  | upgrade k sentAt recordedAt r =>
      simp only [Fleet.step]
      split
      · exact hfewer k
      · exact h
  | busy k => exact hfewer k
  | reconcile updates => exact h

/-! ## Failed upgrades -/

/-- An automatic request for a version whose upgrade failed waits for the backoff. -/
def BacksOff (q r : Request) : Prop :=
  ∀ t, q.state = .failed → q.target = some t → r.automatic = true → r.target = some t →
    q.recordedAt + settings.backoff ≤ r.sentAt

/-- The row shows a failed upgrade, to a version that it names, and the backoff is not over. -/
def Row.Waits (row : Row) (now : Nat) : Prop :=
  row.updateState = .failed ∧ text row.updateAttemptedVersion ≠ "" ∧
    ∃ attemptedAt ∈ row.updateAttemptedAt, now < attemptedAt + settings.backoff

instance (row : Row) (now : Nat) : Decidable (row.Waits settings now) :=
  inferInstanceAs (Decidable (_ ∧ _ ∧ _))

/-- Two rows show the same last attempt. -/
def Row.SameAttempt (row other : Row) : Prop :=
  row.updateState = other.updateState ∧ row.updateAttemptedAt = other.updateAttemptedAt ∧
    row.updateAttemptedVersion = other.updateAttemptedVersion

instance (row other : Row) : Decidable (row.SameAttempt other) :=
  inferInstanceAs (Decidable (_ ∧ _ ∧ _))

/-- The server offers `t` again, and either gives no version of its own or is asked to upgrade;
an agent has an image to pull. -/
def Replies.Retries (r : Replies) (row : Row) (t : String) : Prop :=
  r.client = true ∧ (∃ info ∈ r.versionCheck, text info.newVersion = t) ∧
    (r.status = none ∨ (∃ o ∈ r.offer, ¬ Recognised row o) ∧
      (viaAgent row = true → r.agentUpdate ≠ some false))

instance (r : Replies) (row : Row) (t : String) : Decidable (r.Retries row t) :=
  inferInstanceAs (Decidable (_ ∧ _ ∧ _))

/-- An offer of a version that failed and has been installed since is recognised. -/
def RecognisesRetried (s : Fleet) (now : Nat) (o : Offer) : Prop :=
  ∀ q ∈ s.requests, q.state = .failed → q.target = some o.target →
    now < q.recordedAt + settings.backoff →
      (∃ q' ∈ s.requests, q'.state = .succeeded ∧ q'.attemptedVersion = some o.target) →
        Recognised s.row o

instance (s : Fleet) (now : Nat) (o : Offer) : Decidable (RecognisesRetried settings s now o) :=
  inferInstanceAs (Decidable (∀ q ∈ s.requests, _ → _ → _ → _ → _))

/-- What an upgrade has to find for the row to do as a memory of failures: nothing else is
recorded over one that waits, and an automatic pass goes by what the row says now. -/
structure Remembers (s : Fleet) (p : Pass) (sentAt recordedAt : Nat) (r : Replies) : Prop where
  /-- The clock is not put back behind the last record. -/
  clock : ∀ attemptedAt ∈ s.row.updateAttemptedAt, attemptedAt ≤ sentAt
  /-- Only the version that failed is tried while it waits. -/
  kept : s.row.Waits settings recordedAt → r.Retries s.row (text s.row.updateAttemptedVersion)
  /-- An automatic pass has looked after the failure that the row shows. -/
  looked : p.force = false → s.row.Waits settings sentAt → p.seen.SameAttempt s.row
  /-- The release that it looked up is the one that the server offers it. -/
  cached : p.force = false → p.seen.Waits settings sentAt →
    ∀ o ∈ r.offer, o.target = text p.seen.latestVersion
  installed : p.force = false → ∀ o ∈ r.offer, RecognisesRetried settings s sentAt o

instance (s : Fleet) (p : Pass) (sentAt recordedAt : Nat) (r : Replies) :
    Decidable (Remembers settings s p sentAt recordedAt r) :=
  decidable_of_iff (_ ∧ _ ∧ _ ∧ _ ∧ _)
    ⟨fun ⟨clock, kept, looked, cached, installed⟩ => ⟨clock, kept, looked, cached, installed⟩,
      fun h => ⟨h.clock, h.kept, h.looked, h.cached, h.installed⟩⟩

/-- The row does as a memory in an upgrade; the other events are free. -/
def Keeps (s : Fleet) : Event → Prop
  | .upgrade k sentAt recordedAt r =>
      ∀ p ∈ s.turn k sentAt recordedAt, Remembers settings s p sentAt recordedAt r
  | _ => True

instance (s : Fleet) : ∀ e, Decidable (Keeps settings s e)
  | .upgrade k sentAt recordedAt r =>
      inferInstanceAs (Decidable (∀ p ∈ s.turn k sentAt recordedAt,
        Remembers settings s p sentAt recordedAt r))
  | .look _ _ | .busy _ | .reconcile _ => isTrue trivial

section Records

variable {row : Row} {r : Replies} {t : String} {o : Offer}

/-- An offer comes of answers to both questions. -/
theorem offer_eq_some (h : r.offer = some o) : r.client = true ∧
    (∃ info, r.versionCheck = some info ∧ nonempty (text info.newVersion) = some o.target ∧
      info.canAutoupdate = o.canAutoupdate) ∧ r.status = some o.version := by
  unfold Replies.offer at h
  split at h
  · next hclient =>
      split at h
      · next info version hcheck hstatus =>
          obtain ⟨target, htarget, rfl⟩ := Option.map_eq_some_iff.mp h
          exact ⟨hclient, ⟨info, hcheck, htarget, rfl⟩, hstatus⟩
      · cases h
  · cases h

/-- The release that is offered is a stripped text, and not the empty one. -/
theorem offer_target (h : r.offer = some o) :
    o.target ≠ "" ∧ text (some o.target) = o.target := by
  obtain ⟨-, ⟨info, -, htarget, -⟩, -⟩ := offer_eq_some h
  obtain ⟨heq, hne⟩ := nonempty_eq_some.mp htarget
  rw [← heq]
  exact ⟨hne, PyText.strip_strip _⟩

/-- An upgrade that is not recognised goes through the agent or in place. -/
theorem attempt_of_offer (h : r.offer = some o) (hnew : ¬ Recognised row o) :
    attempt row r =
      if viaAgent row then throughAgent r (some o.target) (currentVersion row o.version)
      else inPlace r o.target (currentVersion row o.version) := by
  obtain ⟨hclient, ⟨info, hcheck, htarget, hcan⟩, hstatus⟩ := offer_eq_some h
  unfold attempt
  rw [if_neg (by simp [hclient]), hcheck, hstatus]
  dsimp only
  rw [htarget, hcan]
  by_cases hagent : viaAgent row = true
  · rw [if_pos hagent, if_pos hagent]
  · rw [if_neg hagent, if_neg hagent]
    obtain ⟨hother, hcan⟩ : o.target ≠ (currentVersion row o.version).getD "" ∧
        replacesItself row o.canAutoupdate = true := by
      simpa [Recognised, hagent] using hnew
    dsimp only
    rw [if_neg hother, if_pos hcan]

/-- An agent's upgrade is recorded under the version offered, unless there is nothing to pull. -/
theorem throughAgent_attempted (current : Option String) :
    ((throughAgent r (some t) current).attemptedVersion = some t ∧
      ((throughAgent r (some t) current).state = .failed ∨
        (throughAgent r (some t) current).state = .succeeded)) ∨
    (r.agentUpdate = some false ∧ (throughAgent r (some t) current).state = .idle) := by
  unfold throughAgent
  split
  · exact .inl ⟨rfl, .inl rfl⟩
  · next hidle => exact .inr ⟨hidle, rfl⟩
  · dsimp only
    split
    · exact .inl ⟨rfl, .inr rfl⟩
    · exact .inl ⟨rfl, .inl rfl⟩
    · exact .inl ⟨rfl, .inl rfl⟩

/-- An upgrade in place is recorded under the version offered. -/
theorem inPlace_attempted (current : Option String) :
    (inPlace r t current).attemptedVersion = some t ∧
      ((inPlace r t current).state = .failed ∨ (inPlace r t current).state = .succeeded) := by
  unfold inPlace
  split
  · exact ⟨rfl, .inl rfl⟩
  all_goals
    dsimp only
    split
    · exact ⟨rfl, .inr rfl⟩
    · exact ⟨rfl, .inl rfl⟩
    · exact ⟨rfl, .inl rfl⟩

/-- What an upgrade that is not recognised leaves on record: the version offered, or nothing when
the agent has nothing to pull. -/
theorem attempt_attempted (h : r.offer = some o) (hnew : ¬ Recognised row o) :
    ((attempt row r).attemptedVersion = some o.target ∧
      ((attempt row r).state = .failed ∨ (attempt row r).state = .succeeded)) ∨
    (viaAgent row = true ∧ r.agentUpdate = some false ∧ (attempt row r).state = .idle) := by
  rw [attempt_of_offer h hnew]
  by_cases hagent : viaAgent row = true
  · rw [if_pos hagent]
    rcases throughAgent_attempted (currentVersion row o.version) with hdone | ⟨hidle, hstate⟩
    · exact .inl hdone
    · exact .inr ⟨hagent, hidle, hstate⟩
  · rw [if_neg hagent]
    exact .inl (inPlace_attempted _)

/-- A request that failed is recorded under its version. -/
theorem attempt_failed (hsent : (attempt row r).sent = true)
    (htarget : (attempt row r).target = some t) (hfailed : (attempt row r).state = .failed) :
    t ≠ "" ∧ text (attempt row r).attemptedVersion = t := by
  obtain ⟨o, hoffer, rfl, hnew⟩ := attempt_sent.mp ⟨hsent, htarget⟩
  obtain ⟨hne, htext⟩ := offer_target hoffer
  rcases attempt_attempted hoffer hnew with ⟨hattempted, -⟩ | ⟨-, -, hidle⟩
  · rw [hattempted]
    exact ⟨hne, htext⟩
  · cases hidle.symm.trans hfailed

/-- A retry is recorded as one: as failed again, or as a request that installed the version. -/
theorem attempt_of_retries (h : r.Retries row t) (ht : t ≠ "") :
    text (attempt row r).attemptedVersion = t ∧ ((attempt row r).state = .failed ∨
      (attempt row r).sent = true ∧ (attempt row r).state = .succeeded ∧
        (attempt row r).attemptedVersion = some t) := by
  obtain ⟨hclient, ⟨info, hcheck, rfl⟩, hstatus | ⟨⟨o, hoffer, hnew⟩, hagent⟩⟩ := h
  · have htarget : nonempty (text info.newVersion) = some (text info.newVersion) :=
      nonempty_eq_some.mpr ⟨rfl, ht⟩
    have hattempt : attempt row r = ⟨false, some (text info.newVersion), .failed, row.version,
        some (text info.newVersion), some (text info.newVersion)⟩ := by
      unfold attempt
      rw [if_neg (by simp [hclient]), hcheck, hstatus]
      dsimp only
      rw [htarget]
    rw [hattempt]
    exact ⟨PyText.strip_strip _, .inl rfl⟩
  · obtain ⟨-, ⟨info', hcheck', htarget, -⟩, -⟩ := offer_eq_some hoffer
    obtain rfl := Option.some.inj (hcheck.symm.trans hcheck')
    obtain ⟨hsame, -⟩ := nonempty_eq_some.mp htarget
    rcases attempt_attempted hoffer hnew with ⟨hattempted, hstate⟩ | ⟨hvia, hidle, -⟩
    · rw [hattempted, hsame]
      refine ⟨(offer_target hoffer).2, hstate.imp_right fun hsucceeded => ?_⟩
      obtain ⟨hsent, -⟩ := attempt_sent.mpr ⟨o, hoffer, rfl, hnew⟩
      exact ⟨hsent, hsucceeded, rfl⟩
    · exact absurd hidle (hagent hvia)

/-- An attempt is recorded with its time and its target. -/
theorem record_attempt (row : Row) (a : Attempt) (now : Nat) :
    (record row a now).updateState = a.state ∧ (record row a now).updateAttemptedAt = some now ∧
      (record row a now).updateAttemptedVersion = a.attemptedVersion := by
  unfold record
  dsimp only
  split <;> exact ⟨rfl, rfl, rfl⟩

/-- A reconcile pass leaves the last attempt alone. -/
theorem applyUpdates_sameAttempt (row : Row) (updates : ServerUpdates) :
    (applyUpdates row updates).SameAttempt row := by
  unfold applyUpdates Row.SameAttempt
  dsimp only
  split <;> split <;> split <;> (try split) <;> exact ⟨rfl, rfl, rfl⟩

end Records

/-! ### What is remembered of a failure -/

/-- The row still says that an upgrade to `t` failed at `since` or later. -/
def Row.Tells (row : Row) (t : String) (since : Nat) : Prop :=
  row.updateState = .failed ∧ text row.updateAttemptedVersion = t ∧
    ∃ attemptedAt ∈ row.updateAttemptedAt, since ≤ attemptedAt

/-- A row that tells of a failure waits until the backoff is over. -/
theorem Row.Tells.waits {row : Row} {t : String} {since now : Nat} (h : row.Tells t since)
    (ht : t ≠ "") (hnow : now < since + settings.backoff) : row.Waits settings now := by
  obtain ⟨hstate, hattempted, attemptedAt, hat, hsince⟩ := h
  exact ⟨hstate, hattempted ▸ ht, attemptedAt, hat, by omega⟩

/-- A row that waits for a version is not due for it. -/
theorem skipReason_of_waits {row : Row} {now : Nat} (h : row.Waits settings now)
    (hsame : text row.latestVersion = text row.updateAttemptedVersion) :
    skipReason settings row now ≠ none := by
  obtain ⟨hstate, hattempted, attemptedAt, hat, hwait⟩ := h
  have hat : row.updateAttemptedAt = some attemptedAt := hat
  unfold skipReason
  simp only [hsame, hstate, hat]
  grind

/-- A failed request is remembered: the row tells of it, or its version has been installed since,
or its backoff is over. -/
def Remembered (s : Fleet) (q : Request) (t : String) : Prop :=
  s.row.Tells t q.recordedAt ∨
    (∃ q' ∈ s.requests, q'.state = .succeeded ∧ q'.attemptedVersion = some t) ∨
      ∃ attemptedAt ∈ s.row.updateAttemptedAt, q.recordedAt + settings.backoff ≤ attemptedAt

/-- Every failed request is remembered. -/
def RemembersAll (s : Fleet) : Prop :=
  ∀ q ∈ s.requests, ∀ t, q.state = .failed → q.target = some t → t ≠ "" ∧ Remembered settings s q t

/-- What stays in the row and in the history stays remembered. -/
theorem Remembered.mono {s s' : Fleet} {q : Request} {t : String} (h : Remembered settings s q t)
    (hrow : s'.row.SameAttempt s.row) (hrequests : s'.requests = s.requests) :
    Remembered settings s' q t := by
  obtain ⟨hstate, hat, hversion⟩ := hrow
  unfold Remembered Row.Tells
  rw [hstate, hat, hversion, hrequests]
  exact h

/-- **An upgrade that keeps to the row leaves every failure remembered**: a retry is told of
again or has installed the version, and what else is recorded comes after the backoff. -/
theorem Remembered.upgrade {s : Fleet} {p : Pass} {k sentAt recordedAt : Nat} {r : Replies}
    {q : Request} {t : String} (h : Remembered settings s q t) (ht : t ≠ "")
    (hturn : s.turn k sentAt recordedAt = some p)
    (hkeeps : Remembers settings s p sentAt recordedAt r) :
    Remembered settings (s.step settings (.upgrade k sentAt recordedAt r)) q t := by
  obtain ⟨-, htimes⟩ := Option.filter_eq_some_iff.mp hturn
  obtain ⟨-, hlater⟩ : p.lookedAt ≤ sentAt ∧ sentAt ≤ recordedAt := by simpa using htimes
  obtain ⟨hstate, hat, hversion⟩ := record_attempt s.row (attempt s.row r) recordedAt
  have hstep : s.step settings (.upgrade k sentAt recordedAt r) =
      ⟨record s.row (attempt s.row r) recordedAt, s.passes.eraseIdx k,
        s.requests ++ (s.request (.upgrade k sentAt recordedAt r)).toList⟩ := by
    simp [Fleet.step, hturn]
  rw [hstep]
  rcases h with ⟨hfailed, hattempted, attemptedAt, hmem, hsince⟩ | ⟨q', hq', hdone⟩ |
    ⟨attemptedAt, hmem, hover⟩
  · have hclock := hkeeps.clock attemptedAt hmem
    by_cases hwaiting : recordedAt < attemptedAt + settings.backoff
    · have hretries := hkeeps.kept ⟨hfailed, hattempted ▸ ht, attemptedAt, hmem, hwaiting⟩
      rw [hattempted] at hretries
      obtain ⟨htext, hagain | ⟨hsent, hsucceeded, hinstalled⟩⟩ := attempt_of_retries hretries ht
      · exact .inl ⟨hstate.trans hagain, hversion ▸ htext, recordedAt, hat, by omega⟩
      · refine .inr (.inl ⟨⟨!p.force, (attempt s.row r).target, sentAt, (attempt s.row r).state,
          (attempt s.row r).attemptedVersion, recordedAt⟩, ?_, hsucceeded, hinstalled⟩)
        apply List.mem_append_right
        simp [Fleet.request, hturn, hsent]
    · exact .inr (.inr ⟨recordedAt, hat, by omega⟩)
  · exact .inr (.inl ⟨q', List.mem_append_left _ hq', hdone⟩)
  · have hclock := hkeeps.clock attemptedAt hmem
    exact .inr (.inr ⟨recordedAt, hat, by omega⟩)

/-- The row tells of the request that has just failed. -/
theorem remembered_request {s : Fleet} {k sentAt recordedAt : Nat} {r : Replies} {q : Request}
    {t : String} (hq : s.request (.upgrade k sentAt recordedAt r) = some q)
    (hfailed : q.state = .failed) (htarget : q.target = some t) :
    t ≠ "" ∧ Remembered settings (s.step settings (.upgrade k sentAt recordedAt r)) q t := by
  obtain ⟨p, hturn, hq⟩ := Option.bind_eq_some_iff.mp hq
  dsimp only at hq
  split at hq
  · next hsent =>
      obtain rfl := Option.some.inj hq
      obtain ⟨ht, htext⟩ := attempt_failed hsent htarget hfailed
      obtain ⟨hstate, hat, hversion⟩ := record_attempt s.row (attempt s.row r) recordedAt
      refine ⟨ht, .inl ?_⟩
      simp only [Fleet.step, hturn]
      exact ⟨hstate.trans hfailed, hversion ▸ htext, recordedAt, hat, le_refl _⟩
  · cases hq

/-- A step that keeps what is known of failures remembers them all. -/
theorem remembersAll_step (s : Fleet) (e : Event) (h : RemembersAll settings s)
    (hkeeps : Keeps settings s e) : RemembersAll settings (s.step settings e) := by
  have hsame : ∀ s' : Fleet, s'.row.SameAttempt s.row → s'.requests = s.requests →
      RemembersAll settings s' := by
    intro s' hrow hrequests q hq t hfailed htarget
    obtain ⟨ht, hremembered⟩ := h q (hrequests ▸ hq) t hfailed htarget
    exact ⟨ht, hremembered.mono settings hrow hrequests⟩
  cases e with
  | look force now =>
      apply hsame <;> simp only [Fleet.step] <;> split
      · exact ⟨rfl, rfl, rfl⟩
      · exact ⟨rfl, rfl, rfl⟩
      · rfl
      · rfl
  | upgrade k sentAt recordedAt r =>
      cases hturn : s.turn k sentAt recordedAt with
      | none =>
          have hstep : s.step settings (.upgrade k sentAt recordedAt r) = s := by
            simp [Fleet.step, hturn]
          rw [hstep]
          exact h
      | some p =>
          intro q hq t hfailed htarget
          rw [step_requests] at hq
          rcases List.mem_append.mp hq with hq | hq
          · obtain ⟨ht, hremembered⟩ := h q hq t hfailed htarget
            exact ⟨ht, hremembered.upgrade settings ht hturn (hkeeps p hturn)⟩
          · exact remembered_request settings (Option.mem_toList.mp hq) hfailed htarget
  | busy k => exact hsame _ ⟨rfl, rfl, rfl⟩ rfl
  | reconcile updates => exact hsame _ (applyUpdates_sameAttempt s.row updates) rfl

/-- Automatic passes found the server due, and failures are remembered. -/
structure Mindful (s : Fleet) : Prop where
  looked : Looked settings s
  remembers : RemembersAll settings s

theorem Mindful.step {s : Fleet} {e : Event} (h : Mindful settings s)
    (hkeeps : Keeps settings s e) : Mindful settings (s.step settings e) :=
  ⟨looked_step settings s e h.looked, remembersAll_step settings s e h.remembers hkeeps⟩

/-- **A request that goes out where failures are remembered has waited.** -/
theorem backsOff_request {s : Fleet} {e : Event} (h : Mindful settings s)
    (hkeeps : Keeps settings s e) :
    ∀ r, s.request e = some r → ∀ q ∈ s.requests, BacksOff settings q r := by
  intro request hrequest q hq t hfailed htarget hautomatic hsame
  obtain ⟨p, o, hoffered, rfl, hnew⟩ :=
    request_automatic.mp ⟨request, hrequest, hautomatic, hsame, rfl⟩
  obtain ⟨hpass, hforce, hbefore⟩ := pass_of_offered hoffered
  obtain ⟨k, recordedAt, r, rfl, hturn, -, hoffer⟩ := offered_eq_some.mp hoffered
  have hremembers := hkeeps p hturn
  by_contra hearly
  have hnow : request.sentAt < q.recordedAt + settings.backoff := by omega
  obtain ⟨ht, htells | hinstalled | ⟨attemptedAt, hat, hover⟩⟩ :=
    h.remembers q hq o.target hfailed htarget
  · -- the pass had seen the failure, and looked up the version that it is offered
    have hwaits := htells.waits settings ht hnow
    obtain ⟨hstate, hat, hversion⟩ := hremembers.looked hforce hwaits
    have hseen : p.seen.Waits settings request.sentAt := by
      unfold Row.Waits
      rw [hstate, hat, hversion]
      exact hwaits
    have hcached := hremembers.cached hforce hseen o hoffer
    have hlookedAt : p.seen.Waits settings p.lookedAt := by
      obtain ⟨hfailed', hne, attemptedAt, hmem, hwait⟩ := hseen
      exact ⟨hfailed', hne, attemptedAt, hmem, by omega⟩
    have hversions : text p.seen.latestVersion = text p.seen.updateAttemptedVersion := by
      rw [← hcached, hversion, htells.2.1]
    exact skipReason_of_waits settings hlookedAt hversions (h.looked p hpass hforce)
  · exact hnew (hremembers.installed hforce o hoffer q hq hfailed htarget hnow hinstalled)
  · have hclock := hremembers.clock attemptedAt hat
    omega

/-- **Failed upgrades back off** on every run on which the row does as a memory. -/
theorem backs_off (row : Row) (events : List Event)
    (hkeeps : Along (Fleet.step settings) (Keeps settings) (start row) events) :
    Throughout (Fleet.step settings) (fun s => s.requests.Pairwise (BacksOff settings))
      (start row) events := by
  rw [throughout_pairwise_iff _ (step_requests settings) rfl]
  have hstart : Mindful settings (start row) :=
    ⟨fun p hp => absurd hp List.not_mem_nil, fun q hq => absurd hq List.not_mem_nil⟩
  refine along_of_invariant _ ?_ hstart hkeeps
  intro s e h hkeep
  exact ⟨backsOff_request settings h hkeep, h.step settings hkeep⟩

/-- Any time, and six hours between attempts. -/
def defaultSettings : Settings := ⟨true, .anyTime, 6⟩

/-- A server with an upgrade that it can install itself. -/
def edge (latest : String) : Row where
  enabled := true
  autoUpdate := true
  installMethod := some .bareMetal
  agentId := none
  agentUrl := none
  version := some "0.107.60"
  latestVersion := some latest
  updateAvailable := true
  canAutoupdate := true
  updateCheckDisabled := false
  cooldownUntil := none
  updateState := .idle
  updateAttemptedAt := none
  updateAttemptedVersion := none
  updateCompletedAt := none

/-- A server that offers a release and answers a request for it as given. -/
def offering (latest version : String) (updateNow : UpdateReply) (polls : List Poll) : Replies :=
  ⟨true, some ⟨some latest, true, false⟩, some (some version), none, updateNow, polls⟩

/-- A server that does not answer. -/
def unreachable : Replies := ⟨true, none, none, none, .dropped, []⟩

/-- A forced pass that fails before it knows a version wipes out the failure. -/
theorem forgotten_failure_is_retried :
    ¬ ∀ events, Throughout (Fleet.step defaultSettings)
      (fun s => s.requests.Pairwise (BacksOff defaultSettings)) (start (edge "0.107.61")) events := by
  intro h
  have hlast := throughout_last _ (h
    [.look false 0, .upgrade 0 1 2 (offering "0.107.61" "0.107.60" .refused []),
      .look true 10, .upgrade 0 11 12 unreachable,
      .look false 20, .upgrade 0 21 22 (offering "0.107.61" "0.107.60" .refused [])])
  have hrequests : (after (Fleet.step defaultSettings) (start (edge "0.107.61"))
      [.look false 0, .upgrade 0 1 2 (offering "0.107.61" "0.107.60" .refused []),
        .look true 10, .upgrade 0 11 12 unreachable,
        .look false 20, .upgrade 0 21 22 (offering "0.107.61" "0.107.60" .refused [])]).requests =
      [⟨true, some "0.107.61", 1, .failed, some "0.107.61", 2⟩,
        ⟨true, some "0.107.61", 21, .failed, some "0.107.61", 22⟩] := by
    decide +kernel
  rw [hrequests, List.pairwise_pair] at hlast
  have hlate := hlast "0.107.61" rfl rfl rfl rfl
  exact absurd hlate (by decide)

/-- Refused, refused again in a forced pass, and tried once more when the backoff is over. -/
def refusedTwice : List Event :=
  [.look false 0, .upgrade 0 1 2 (offering "0.107.61" "0.107.60" .refused []),
    .look true 10, .upgrade 0 11 12 (offering "0.107.61" "0.107.60" .refused []),
    .look false 20,
    .look false 21612, .upgrade 0 21613 21614 (offering "0.107.61" "0.107.60" .refused [])]

/-- The theorem applies to an upgrade that is refused twice. -/
theorem refusedTwice_backs_off :
    (after (Fleet.step defaultSettings) (start (edge "0.107.61")) refusedTwice).requests.map
        (fun q => (q.automatic, q.sentAt)) = [(true, 1), (false, 11), (true, 21613)] ∧
      Throughout (Fleet.step defaultSettings)
        (fun s => s.requests.Pairwise (BacksOff defaultSettings)) (start (edge "0.107.61"))
        refusedTwice :=
  ⟨by decide +kernel,
    backs_off defaultSettings (edge "0.107.61") refusedTwice (by decide +kernel)⟩

/-! ## Installed upgrades -/

/-- A version that was installed is not installed again by an automatic pass. -/
def NotRepeated (q r : Request) : Prop :=
  ∀ t, q.state = .succeeded → q.attemptedVersion = some t → r.automatic = true →
    r.target ≠ some t

/-- An automatic pass recognises the versions that were installed. -/
def RecognisesInstalled (s : Fleet) (e : Event) : Prop :=
  ∀ p sentAt o, s.offered e = some (p, sentAt, o) →
    ∀ q ∈ s.requests, q.state = .succeeded → q.attemptedVersion = some o.target →
      Recognised s.row o

/-- No request repeats another exactly when the installed version is recognised. -/
theorem notRepeated_request_iff (s : Fleet) (e : Event) :
    (∀ r, s.request e = some r → ∀ q ∈ s.requests, NotRepeated q r) ↔
      RecognisesInstalled s e := by
  constructor
  · intro hlaw p sentAt o hoffered q hq hsucceeded hversion
    by_contra hnew
    obtain ⟨r, hr, hautomatic, hsame, -⟩ := request_automatic.mpr ⟨p, o, hoffered, rfl, hnew⟩
    exact hlaw r hr q hq o.target hsucceeded hversion hautomatic hsame
  · intro hrecognises r hr q hq t hsucceeded hversion hautomatic hsame
    obtain ⟨p, o, hoffered, rfl, hnew⟩ := request_automatic.mp ⟨r, hr, hautomatic, hsame, rfl⟩
    exact hnew (hrecognises p r.sentAt o hoffered q hq hsucceeded hversion)

/-- **Installed upgrades are not repeated**, on exactly those runs on which every server
that is offered an installed version again says that it runs it, in the same spelling, or
cannot be upgraded by this application. -/
theorem not_repeated_iff (row : Row) (events : List Event) :
    Throughout (Fleet.step settings) (fun s => s.requests.Pairwise NotRepeated) (start row) events ↔
      Along (Fleet.step settings) RecognisesInstalled (start row) events := by
  rw [throughout_pairwise_iff _ (step_requests settings) rfl]
  exact along_congr _ notRepeated_request_iff (start row) events

/-- A pass over a server that has nothing else to do. -/
def quietEnvironment : SyncEnvironment := ⟨id, fun _ => none, fun _ => none, 120⟩

def emptyPlan : ServerPlan where
  serverId := 1
  name := "edge"
  url := "http://10.0.0.2:3000"
  username := none
  passwordEnc := none
  tlsCert := none
  prune := false
  manageUpstreams := false
  manageFiltering := false
  rewrites := []
  upstreamLists := []
  filters _ := []
  blockedServices := []

/-- A server that runs a release and offers another, or the same in another spelling. -/
def serverRunning (version latest : String) : AdGuard where
  version := some version
  versionInfo := ⟨some latest, true, false⟩
  rewrites := []
  dns _ := []
  usePrivatePtrResolvers := false
  lists _ := .empty
  filteringEnabled := true
  interval := none
  blockedIds := []
  schedule := none

/-- A release that its server spells in two ways. -/
theorem other_spelling_is_repeated :
    ¬ ∀ events, Throughout (Fleet.step defaultSettings)
      (fun s => s.requests.Pairwise NotRepeated) (start (edge "v0.107.61")) events := by
  intro h
  let events : List Event :=
    [.look false 0,
      .upgrade 0 1 60 (offering "v0.107.61" "0.107.60" .dropped [.down, .up (some "0.107.61")]),
      .reconcile (quietEnvironment.applyPlan emptyPlan false
        (serverRunning "0.107.61" "v0.107.61")).updates,
      .look false 3600,
      .upgrade 0 3601 3660 (offering "v0.107.61" "0.107.61" .dropped [.down])]
  have hlast := throughout_last _ (h events)
  have hrequests : (after (Fleet.step defaultSettings) (start (edge "v0.107.61")) events).requests =
      [⟨true, some "v0.107.61", 1, .succeeded, some "v0.107.61", 60⟩,
        ⟨true, some "v0.107.61", 3601, .failed, some "v0.107.61", 3660⟩] := by
    decide +kernel
  rw [hrequests, List.pairwise_pair] at hlast
  exact hlast "v0.107.61" rfl rfl rfl rfl

end Runs

end AdguardAdmin.Updater
