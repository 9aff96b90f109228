import AdguardAdmin.HourlyRollup
import AdguardAdmin.StepGrid
/-!
# Series of metric samples

`series` cuts a range of time up to now into steps.  In each step it takes the mean of every
entity's samples, and adds these up over the entities, or takes their mean again.

The stored times are naive times in UTC, and `timestamp` takes them for local ones.

Times are numbers of microseconds since the epoch, labels of points are numbers of seconds.
-/

namespace AdguardAdmin.Series

open HourlyRollup (Kind Resolution MetricSample mean)

/-! ## Ranges -/

def ranges : List (String × Int) :=
  [("1h", 3600), ("6h", 6 * 3600), ("24h", 86400), ("7d", 7 * 86400), ("30d", 30 * 86400)]

def steps : List Int := [60, 300, 600, 900, 1800, 3600, 7200, 21600, 43200]

structure Plan where
  span : Int
  step : Int
  resolution : Resolution
  deriving DecidableEq, Repr

def planRange (name : String) : Plan :=
  let span := (ranges.lookup name).getD 86400
  let resolution : Resolution := if span ≤ 48 * 3600 then .minute else .hour
  let floor := if resolution = .minute then 60 else 3600
  -- about 200 points
  let step := (steps.find? fun s => span ≤ 200 * s ∧ floor ≤ s).getD 43200
  ⟨span, step, resolution⟩

/-! ## Buckets -/

def second : Int := 1000000

/-- The current time, and the offset of the process from UTC in seconds. -/
structure Clock where
  now : Int
  utcOffset : Int
  deriving DecidableEq, Repr

/-- `timestamp` of a naive time. -/
def Clock.timestamp (clock : Clock) (t : Int) : Int := t - clock.utcOffset * second

structure Query where
  kind : Kind
  entityIds : List Nat
  rangeName : String
  fields : List String
  fields_ne : fields ≠ []

section Series

-- `round` is Python's rounding to three digits
variable (round : ℚ → ℚ) (clock : Clock) (q : Query)

def Query.plan : Plan := planRange q.rangeName

def Query.start : Int := clock.now - q.plan.span * second

def Query.bucket (t : Int) : Int :=
  clock.timestamp t / (q.plan.step * second) * q.plan.step

/-- The rows that are read. -/
def Query.selected (rows : List MetricSample) : List MetricSample :=
  rows.filter fun r =>
    r.kind = q.kind ∧ r.resolution = q.plan.resolution ∧ r.entityId ∈ q.entityIds ∧
      q.start clock ≤ r.ts ∧ r.ts ≤ clock.now

/-- The rows that are put into a bucket. -/
def Query.bucketRows (rows : List MetricSample) (b : Int) : List MetricSample :=
  (q.selected clock rows).filter fun r => q.bucket clock r.ts = b

/-- The entities of some rows, in which order does not matter. -/
def entitiesOf (rows : List MetricSample) : List Nat := (rows.map (·.entityId)).dedup

/-- The readings of an entity under a name: each row appends one for each time that the name is
gone through. -/
def readings (names : List String) (rows : List MetricSample) (entity : Nat) (f : String) :
    List (Option HourlyRollup.Reading) :=
  (rows.filter (·.entityId = entity)).flatMap fun r =>
    List.replicate (names.count f) (r.values f)

/-- `_mean` -/
def roundedMean (values : List (Option HourlyRollup.Reading)) : Option ℚ :=
  (mean values).map round

structure Point where
  ts : Int
  values : List (String × Option ℚ)
  reporting : Nat

/-- The value of a field in a bucket. -/
def Query.value (rows : List MetricSample) (f : String) : Option ℚ :=
  let means := (entitiesOf rows).filterMap fun e =>
    roundedMean round (readings (q.fields ++ ["online"]) rows e f)
  if means = [] then none
  else if f = "avg_ms" then some (round (means.sum / means.length))
  else some (round means.sum)

def Query.point (rows : List MetricSample) (b : Int) : Point where
  ts := b
  values := q.fields.map fun f => (f, q.value round (q.bucketRows clock rows b) f)
  reporting := (entitiesOf (q.bucketRows clock rows b)).countP fun e =>
    1 / 2 ≤ (roundedMean round
      (readings (q.fields ++ ["online"]) (q.bucketRows clock rows b) e "online")).getD 0

/-- The labels of the points. -/
def Query.labels : List Int :=
  let first := q.bucket clock (q.start clock) + q.plan.step
  let last := q.bucket clock clock.now
  StepGrid.range first (last + 1) q.plan.step

structure Answer where
  range : String
  stepS : Int
  resolution : Resolution
  entities : Nat
  points : List Point

def Query.series (rows : List MetricSample) : Answer where
  range := if (ranges.lookup q.rangeName).isSome then q.rangeName else "24h"
  stepS := q.plan.step
  resolution := q.plan.resolution
  entities := q.entityIds.length
  points := (q.labels clock).map (q.point round clock rows)

end Series

end AdguardAdmin.Series
