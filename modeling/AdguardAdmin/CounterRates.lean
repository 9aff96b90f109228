import AdguardAdmin.ResetCounters
import AdguardAdmin.RunLaws
/-!
# Rates from counters

The collector stores a sample of every server and balancer now and then, with the counter that it
reports, and a rate against the sample before.  The counter may have started over in between, and
there is no rate when a sample is missing or too old.

* `rate_exact` — a rate stands for what was counted between the two samples, but for its rounding,
  unless a reset hid some of it;
* `rates_account_for` — over every run of samples, the rates account for no more than was counted.
-/

namespace AdguardAdmin.CounterRates

open ResetCounters RunLaws

variable {K : Type} [Field K] [LinearOrder K] [IsStrictOrderedRing K]

/-- `MetricSample`, with one counter of its values. -/
structure Sample (K : Type) where
  ts : K
  counter : Option K

/-- How old the sample before may be, and the rounding to three places. -/
structure Settings (K : Type) where
  syncIntervalSeconds : K
  /-- `within` of `latest`. -/
  within : K
  round : K → K

/-- `rate`. -/
def rate (cfg : Settings K) (prev : Option (Sample K)) (current : Option K) (now : K) :
    Option K :=
  match current, prev with
  | some current, some prev =>
      match prev.counter with
      | none => none
      | some before =>
          let dt := now - prev.ts
          if dt ≤ 0 ∨ cfg.syncIntervalSeconds * 5 < dt then none
          else some (cfg.round (max 0 (increase before current / dt)))
  | _, _ => none

/-- The counter of one server, its last sample, and the time.  For the statements only, `total` is
what was ever counted, and `accounted` and `rated` add up, over the samples with a rate, what the
rate stands for and the time since the sample before. -/
structure System (K : Type) where
  counter : K
  now : K
  last : Option (Sample K)
  total : K
  accounted : K
  rated : K

inductive Event (K : Type) where
  | counter (e : ResetCounters.Event K)
  | wait (time : K)
  /-- A pass of the collector, which may find no counter. -/
  | collect (answered : Bool)

def Event.Proper : Event K → Prop
  | .counter e => e.Proper
  | .wait time => 0 ≤ time
  | .collect _ => True

/-- `latest`, for one server. -/
def latest (cfg : Settings K) (s : System K) : Option (Sample K) :=
  s.last.filter fun sample => s.now - cfg.within ≤ sample.ts

/-- One sample of `collect_all`. -/
def collect (cfg : Settings K) (s : System K) (answered : Bool) : System K :=
  let current := if answered then some s.counter else none
  let stored := { s with last := some ⟨s.now, current⟩ }
  match latest cfg s, rate cfg (latest cfg s) current s.now with
  | some prev, some r =>
      { stored with
        accounted := s.accounted + r * (s.now - prev.ts)
        rated := s.rated + (s.now - prev.ts) }
  | _, _ => stored

def step (cfg : Settings K) (s : System K) : Event K → System K
  | .counter e => { s with counter := shown s.counter e, total := s.total + e.amount }
  | .wait time => { s with now := s.now + time }
  | .collect answered => collect cfg s answered

def start (counter now : K) : System K := ⟨counter, now, none, 0, 0, 0⟩

/-! ## One rate -/

section Rate

variable {cfg : Settings K} {ε before current ts now r : K}

omit [IsStrictOrderedRing K] in
/-- A rate is the increase over the time, up to rounding. -/
theorem rate_some {prev : Option (Sample K)} {reading : Option K}
    (h : rate cfg prev reading now = some r) :
    ∃ ts before current, prev = some ⟨ts, some before⟩ ∧ reading = some current ∧ 0 < now - ts ∧
      r = cfg.round (max 0 (increase before current / (now - ts))) := by
  unfold rate at h
  split at h
  · next current prev =>
      split at h
      · cases h
      · next before hcounter =>
          dsimp only at h
          split at h
          · cases h
          · next hdt =>
              obtain ⟨hpos, -⟩ := not_or.mp hdt
              obtain ⟨ts, counter⟩ := prev
              obtain rfl : counter = some before := hcounter
              exact ⟨ts, before, current, rfl, rfl, not_le.mp hpos, (Option.some.inj h).symm⟩
  · cases h

/-- A counter that is not negative does not fall. -/
theorem increase_nonneg (hcurrent : 0 ≤ current) : 0 ≤ increase before current := by
  unfold increase
  split
  · next hle => exact sub_nonneg.mpr hle
  · exact hcurrent

/-- What a rate stands for is within its rounding of the increase. -/
theorem rate_times (hround : ∀ x, |cfg.round x - x| ≤ ε) {dt : K} (hdt : 0 < dt)
    (hcurrent : 0 ≤ current) :
    |cfg.round (max 0 (increase before current / dt)) * dt - increase before current| ≤
      ε * dt := by
  have hquot : 0 ≤ increase before current / dt := div_nonneg (increase_nonneg hcurrent) hdt.le
  have hexact : increase before current / dt * dt = increase before current :=
    div_mul_cancel₀ _ hdt.ne'
  rw [max_eq_right hquot]
  calc |cfg.round (increase before current / dt) * dt - increase before current|
      = |(cfg.round (increase before current / dt) - increase before current / dt) * dt| := by
        rw [sub_mul, hexact]
    _ = |cfg.round (increase before current / dt) - increase before current / dt| * dt := by
        rw [abs_mul, abs_of_pos hdt]
    _ ≤ ε * dt := mul_le_mul_of_nonneg_right (hround _) hdt.le

/-- The value of a counter stays non-negative under proper events. -/
theorem value_nonneg {c : K} {events : List (ResetCounters.Event K)} (hc : 0 ≤ c)
    (h : ∀ e ∈ events, e.Proper) : 0 ≤ value c events := by
  induction events generalizing c with
  | nil => exact hc
  | cons e rest ih =>
      have he := h e List.mem_cons_self
      have hrest : ∀ d ∈ rest, d.Proper := fun d hd => h d (List.mem_cons_of_mem _ hd)
      cases e with
      | grow n => exact ih (add_nonneg hc he) hrest
      | reset => exact ih (le_refl 0) hrest

/-- **A rate stands for what was counted**, unless a reset hid some of it. -/
theorem rate_exact (hround : ∀ x, |cfg.round x - x| ≤ ε)
    {events : List (ResetCounters.Event K)} (hbefore : 0 ≤ before)
    (h : ∀ e ∈ events, e.Proper) (hseen : Seen before events)
    (hrate : rate cfg (some ⟨ts, some before⟩) (some (value before events)) now = some r) :
    |r * (now - ts) - counted events| ≤ ε * (now - ts) := by
  obtain ⟨ts', before', current, hprev, hreading, hpos, rfl⟩ := rate_some hrate
  obtain ⟨rfl, hcounter⟩ := Sample.mk.inj (Option.some.inj hprev)
  obtain rfl := Option.some.inj hcounter
  obtain rfl := Option.some.inj hreading
  rw [← (increase_eq_iff hbefore h).mpr hseen]
  exact rate_times hround hpos (value_nonneg hbefore h)

end Rate

/-! ## Runs -/

section Runs

variable {cfg : Settings K} {ε : K} {s : System K}

/-- What the counter did since the last sample with a counter, and what the rates account for. -/
structure Inv (ε : K) (s : System K) : Prop where
  counter : 0 ≤ s.counter
  accounted : s.accounted ≤ s.total + ε * s.rated
  since : ∀ ts before, s.last = some ⟨ts, some before⟩ →
    ∃ events : List (ResetCounters.Event K), (∀ e ∈ events, e.Proper) ∧ 0 ≤ before ∧
      s.counter = value before events ∧
        s.accounted + counted events ≤ s.total + ε * s.rated

/-- A counter that moves on keeps the invariant. -/
theorem Inv.counter_step (h : Inv ε s) {e : ResetCounters.Event K} (he : e.Proper) :
    Inv ε (step cfg s (.counter e)) := by
  have hamount : 0 ≤ e.amount := by
    cases e with
    | grow n => exact he
    | reset => exact le_refl _
  have haccounted := h.accounted
  refine ⟨?_, ?_, ?_⟩
  · cases e with
    | grow n => exact add_nonneg h.counter he
    | reset => exact le_refl _
  · show s.accounted ≤ s.total + e.amount + ε * s.rated
    linarith
  · intro ts before hlast
    obtain ⟨events, hproper, hbefore, hvalue, hle⟩ := h.since ts before hlast
    refine ⟨events ++ [e], ?_, hbefore, ?_, ?_⟩
    · intro d hd
      rcases List.mem_append.mp hd with hd | hd
      · exact hproper d hd
      · exact List.mem_singleton.mp hd ▸ he
    · rw [value_append, ← hvalue]
      rfl
    · have hone : counted [e] = e.amount := add_zero _
      rw [counted_append, hone]
      show s.accounted + (counted events + e.amount) ≤ s.total + e.amount + ε * s.rated
      linarith

omit [IsStrictOrderedRing K] in
/-- A sample that has no rate starts afresh. -/
theorem Inv.afresh (h : Inv ε s) (reading : Option K) (hreading : ∀ c ∈ reading, c = s.counter) :
    Inv ε { s with last := some ⟨s.now, reading⟩ } := by
  refine ⟨h.counter, h.accounted, fun ts before hlast => ?_⟩
  obtain ⟨-, hcounter⟩ := Sample.mk.inj (Option.some.inj hlast)
  obtain rfl := hreading before hcounter
  refine ⟨[], fun e he => absurd he List.not_mem_nil, h.counter, rfl, ?_⟩
  show s.accounted + 0 ≤ s.total + ε * s.rated
  rw [add_zero]
  exact h.accounted

/-- What the rates account for once the rate of one more interval is stored. -/
theorem Inv.accounted_rate (hround : ∀ x, |cfg.round x - x| ≤ ε) (h : Inv ε s) {ts before : K}
    (hlast : s.last = some ⟨ts, some before⟩) (hpos : 0 < s.now - ts) :
    s.accounted + cfg.round (max 0 (increase before s.counter / (s.now - ts))) * (s.now - ts) ≤
      s.total + ε * (s.rated + (s.now - ts)) := by
  obtain ⟨events, hproper, hbefore, hvalue, hle⟩ := h.since ts before hlast
  have hincrease : increase before s.counter ≤ counted events := by
    rw [hvalue]
    exact increase_le hbefore hproper
  have hclose : |cfg.round (max 0 (increase before s.counter / (s.now - ts))) * (s.now - ts) -
      increase before s.counter| ≤ ε * (s.now - ts) := rate_times hround hpos h.counter
  have htimes := (abs_le.mp hclose).2
  rw [mul_add]
  linarith

/-- A sample keeps the invariant. -/
theorem Inv.collect (hround : ∀ x, |cfg.round x - x| ≤ ε) (h : Inv ε s) (answered : Bool) :
    Inv ε (collect cfg s answered) := by
  have hreading : ∀ c ∈ (if answered = true then some s.counter else none), c = s.counter := by
    intro c hc
    split at hc
    · exact (Option.some.inj hc).symm
    · cases hc
  unfold CounterRates.collect
  dsimp only
  split
  · next prev r hprev hrate =>
      obtain ⟨ts, before, current, hlatest, hcurrent, hpos, rfl⟩ := rate_some hrate
      obtain rfl := Option.some.inj (hprev.symm.trans hlatest)
      obtain rfl := hreading current hcurrent
      have hlast : s.last = some ⟨ts, some before⟩ := (Option.filter_eq_some_iff.mp hprev).1
      have hrated : Inv ε { s with
          accounted := s.accounted + cfg.round (max 0 (increase before s.counter / (s.now - ts))) *
            (s.now - ts)
          rated := s.rated + (s.now - ts)
          last := none } :=
        ⟨h.counter, h.accounted_rate hround hlast hpos, fun _ _ hnone => absurd hnone (by simp)⟩
      exact hrated.afresh _ hreading
  · exact h.afresh _ hreading

/-- Every step with a proper event keeps the invariant. -/
theorem Inv.step (hround : ∀ x, |cfg.round x - x| ≤ ε) (h : Inv ε s) {e : Event K}
    (he : e.Proper) : Inv ε (step cfg s e) := by
  cases e with
  | counter e => exact h.counter_step he
  | wait time => exact ⟨h.counter, h.accounted, h.since⟩
  | collect answered => exact h.collect hround answered

/-- Every run of proper events keeps the invariant. -/
theorem Inv.run (hround : ∀ x, |cfg.round x - x| ≤ ε) (h : Inv ε s) {events : List (Event K)}
    (hproper : ∀ e ∈ events, e.Proper) : Inv ε (after (CounterRates.step cfg) s events) := by
  induction events generalizing s with
  | nil => exact h
  | cons e rest ih =>
      have hstep := h.step hround (hproper e List.mem_cons_self)
      exact ih hstep fun d hd => hproper d (List.mem_cons_of_mem _ hd)

omit [IsStrictOrderedRing K] in
theorem inv_start {counter now : K} (hcounter : 0 ≤ counter) : Inv ε (start counter now) := by
  refine ⟨hcounter, ?_, fun _ _ hnone => absurd hnone (by simp [start])⟩
  show (0 : K) ≤ 0 + ε * 0
  simp

/-- **Rates never account for more than was counted**, but for their rounding, however often the
counter starts over and however samples come and fail to come. -/
theorem rates_account_for (hround : ∀ x, |cfg.round x - x| ≤ ε) {counter now : K}
    (hcounter : 0 ≤ counter) (events : List (Event K)) (h : ∀ e ∈ events, e.Proper) :
    (after (step cfg) (start counter now) events).accounted ≤
      (after (step cfg) (start counter now) events).total +
        ε * (after (step cfg) (start counter now) events).rated := by
  have hstart : Inv ε (start counter now) := inv_start hcounter
  exact (hstart.run hround h).accounted

end Runs

/-! Two samples, a reset, and a third one. -/

/-- `round(x, 3)`, ties aside. -/
def toThousandths (x : ℚ) : ℚ := ⌊x * 1000 + 1 / 2⌋ / 1000

/-- Thousandths are rounded to the nearest. -/
theorem toThousandths_close (x : ℚ) : |toThousandths x - x| ≤ 1 / 2000 := by
  have hle := Int.floor_le (x * 1000 + 1 / 2)
  have hlt := Int.lt_floor_add_one (x * 1000 + 1 / 2)
  rw [abs_le, toThousandths]
  constructor <;> linarith

def everyMinute : Settings ℚ := ⟨60, 1800, toThousandths⟩

def threeSamples : List (Event ℚ) :=
  [.collect true, .counter (.grow 90), .wait 60, .collect true, .counter (.grow 10),
    .counter .reset, .counter (.grow 30), .wait 60, .collect true]

/-- The events of the three samples are proper. -/
theorem threeSamples_proper : ∀ e ∈ threeSamples, e.Proper := by
  have h90 : (0 : ℚ) ≤ 90 := by norm_num
  have h60 : (0 : ℚ) ≤ 60 := by norm_num
  have h10 : (0 : ℚ) ≤ 10 := by norm_num
  have h30 : (0 : ℚ) ≤ 30 := by norm_num
  intro e he
  simp only [threeSamples, List.mem_cons, List.not_mem_nil, or_false] at he
  rcases he with rfl | rfl | rfl | rfl | rfl | rfl | rfl | rfl | rfl
  exacts [trivial, h90, h60, trivial, h10, trivial, h30, h60, trivial]

/-- The bound holds of these three samples. -/
theorem threeSamples_account_for :
    (after (step everyMinute) (start 0 0) threeSamples).accounted ≤
      (after (step everyMinute) (start 0 0) threeSamples).total +
        1 / 2000 * (after (step everyMinute) (start 0 0) threeSamples).rated :=
  @rates_account_for ℚ _ _ _ everyMinute (1 / 2000) toThousandths_close 0 0 le_rfl threeSamples
    threeSamples_proper

end AdguardAdmin.CounterRates
