import AdguardAdmin.Series
import Mathlib.Algebra.BigOperators.Group.Finset.Basic
import Mathlib.Algebra.Order.Ring.Int
import Mathlib.Algebra.Order.Ring.Rat
/-!
# Buckets of series

Each sample should count in the point of the step that its time lies in, and in no other one.
It does if the process has the time of UTC.  Otherwise a bucket is the step of the time less the
offset, while its label is taken for a time in UTC.

* `series_right_iff` — a series is right exactly if no sample changes its step by that;
* `inPlace_of_utc` — none does in UTC.
-/

namespace AdguardAdmin.Series

open HourlyRollup (Kind Resolution MetricSample Reading Values mean)
open StepGrid

/-! ## What is promised -/

section Promise

variable (round : ℚ → ℚ) (clock : Clock) (q : Query)

/-- What of a sample is known without its readings. -/
structure Stamp where
  ts : Int
  resolution : Resolution
  kind : Kind
  entityId : Nat
  deriving DecidableEq, Repr

def stampOf (r : MetricSample) : Stamp := ⟨r.ts, r.resolution, r.kind, r.entityId⟩

/-- The samples that a series is about. -/
def Query.Asks (s : Stamp) : Prop :=
  s.kind = q.kind ∧ s.resolution = q.plan.resolution ∧ s.entityId ∈ q.entityIds

instance (s : Stamp) : Decidable (q.Asks s) := inferInstanceAs (Decidable (_ ∧ _ ∧ _))

/-- The step with a label contains a time. -/
def Query.InStep (label t : Int) : Prop :=
  label * second ≤ t ∧ t < (label + q.plan.step) * second

instance (label t : Int) : Decidable (q.InStep label t) := inferInstanceAs (Decidable (_ ∧ _))

def entityMean (rows : List MetricSample) (f : String) (e : Nat) : Option ℚ :=
  roundedMean round ((rows.filter (·.entityId = e)).map (·.values f))

/-- The entities that have a mean. -/
def withMean (rows : List MetricSample) (f : String) : Finset Nat :=
  (rows.map (·.entityId)).toFinset.filter fun e => (entityMean round rows f e).isSome

/-- The sum of the means of all entities, or their mean. -/
def stepValue (rows : List MetricSample) (f : String) : Option ℚ :=
  if withMean round rows f = ∅ then none
  else
    let total := ∑ e ∈ withMean round rows f, (entityMean round rows f e).getD 0
    some (round (if f = "avg_ms" then total / (withMean round rows f).card else total))

/-- The points are those of successive steps; a sample counts in the one of its own step, and
the value of a point is that of the samples of its step. -/
structure Query.Right (rows : List MetricSample) (points : List Point) : Prop where
  spaced : (points.map (·.ts)).IsChain fun a b => b = a + q.plan.step
  placed : ∀ r ∈ rows, q.Asks (stampOf r) → ∀ p₀ ∈ points.head?, p₀.ts * second ≤ r.ts →
    (∃! p, p ∈ points ∧ r ∈ q.bucketRows clock rows p.ts) ∧
      ∀ p ∈ points, r ∈ q.bucketRows clock rows p.ts →
        q.plan.step ∣ p.ts ∧ q.InStep p.ts r.ts
  valued : ∀ p ∈ points, p.values = q.fields.map fun f =>
    (f, stepValue round (rows.filter fun r => q.Asks (stampOf r) ∧ q.InStep p.ts r.ts) f)

/-- The number of the step of a time. -/
def Query.stepAt (t : Int) : Int := stepOf (q.plan.step * second) t

/-- The step of a time, of the ones that are shown or of the range that is read, is the same
with and without the offset. -/
def Query.InPlace (t : Int) : Prop :=
  q.stepAt (clock.timestamp (q.start clock)) < q.stepAt t ∨
      ((q.start clock ≤ t ∧ t ≤ clock.now) ∧
        q.stepAt (clock.timestamp (q.start clock)) < q.stepAt (clock.timestamp t)) →
    (q.start clock ≤ t ∧ t ≤ clock.now) ∧ q.stepAt (clock.timestamp t) = q.stepAt t

end Promise

/-! ## Means -/

section Means

variable {round : ℚ → ℚ}

/-- A mean stays the same if every value is repeated equally often. -/
theorem mean_replicate {values : List (Option Reading)} {n : Nat} (hn : n ≠ 0) :
    mean (values.flatMap fun v => List.replicate n v) = mean values := by
  have hxs : (values.flatMap fun v => List.replicate n v).filterMap
      (fun v => v.bind Reading.number?) =
        (values.filterMap fun v => v.bind Reading.number?).flatMap fun x =>
          List.replicate n x := by
    induction values with
    | nil => rfl
    | cons v values ih =>
        rw [List.flatMap_cons, List.filterMap_append, ih, List.filterMap_replicate,
          List.filterMap_cons]
        cases hv : v.bind Reading.number? with
        | none => rfl
        | some x => rfl
  generalize hys : (values.filterMap fun v => v.bind Reading.number?) = ys at hxs
  have hsum : (ys.flatMap fun x => List.replicate n x).sum = n * ys.sum := by
    clear hxs hys
    induction ys with
    | nil => simp
    | cons y ys ih =>
        rw [List.flatMap_cons, List.sum_append, ih, List.sum_replicate, List.sum_cons, nsmul_eq_mul,
          mul_add]
  have hlength : ((ys.flatMap fun x => List.replicate n x).length : ℚ) = n * ys.length := by
    clear hxs hys hsum
    induction ys with
    | nil => simp
    | cons y ys ih =>
        rw [List.flatMap_cons, List.length_append, Nat.cast_add, ih, List.length_replicate,
          List.length_cons, Nat.cast_add, Nat.cast_one, mul_add, mul_one, add_comm]
  have hnil : (ys.flatMap fun x => List.replicate n x) = [] ↔ ys = [] := by
    cases ys with
    | nil => simp
    | cons y ys => simp [hn]
  simp only [mean, hxs, hys, hnil, hsum, hlength]
  rw [mul_div_mul_left _ _ (Nat.cast_ne_zero.mpr hn)]

/-- Every row counts once in a mean, however often its reading was appended. -/
theorem roundedMean_readings {names : List String} {f : String} (hf : f ∈ names)
    (rows : List MetricSample) (e : Nat) :
    roundedMean round (readings names rows e f) = entityMean round rows f e := by
  have hcount : names.count f ≠ 0 := (List.count_pos_iff.mpr hf).ne'
  have hmap : readings names rows e f =
      ((rows.filter (·.entityId = e)).map (·.values f)).flatMap fun v =>
        List.replicate (names.count f) v := by
    rw [readings, List.flatMap_map]
  rw [entityMean, roundedMean, hmap, mean_replicate hcount]
  rfl

/-- What a list of means adds up to, entity by entity. -/
theorem filterMap_means {es : List Nat} (hes : es.Nodup) (m : Nat → Option ℚ) :
    (es.filterMap m).sum = ∑ e ∈ es.toFinset.filter fun e => (m e).isSome, (m e).getD 0 ∧
      (es.filterMap m).length = (es.toFinset.filter fun e => (m e).isSome).card := by
  have hlist : es.filterMap m = (es.filter fun e => (m e).isSome).map fun e => (m e).getD 0 := by
    clear hes
    induction es with
    | nil => rfl
    | cons e es ih =>
        cases hm : m e with
        | none => rw [List.filterMap_cons_none hm, ih, List.filter_cons_of_neg (by simp [hm])]
        | some x =>
            rw [List.filterMap_cons_some hm, ih, List.filter_cons_of_pos (by simp [hm]),
              List.map_cons, hm]
            rfl
  have hset : es.toFinset.filter (fun e => (m e).isSome) =
      (es.filter fun e => (m e).isSome).toFinset := by
    rw [List.toFinset_filter]
  have hnodup := hes.filter fun e => (m e).isSome
  rw [hset, List.sum_toFinset _ hnodup, List.toFinset_card_of_nodup hnodup, hlist]
  exact ⟨rfl, List.length_map _⟩

/-- The fields of a query are written from the rows of their step. -/
theorem value_eq {q : Query} {f : String} (hf : f ∈ q.fields) (rows : List MetricSample) :
    q.value round rows f = stepValue round rows f := by
  have hmeans : (fun e => roundedMean round (readings (q.fields ++ ["online"]) rows e f)) =
      entityMean round rows f := by
    funext e
    exact roundedMean_readings (List.mem_append_left _ hf) rows e
  obtain ⟨hsum, hlength⟩ :=
    filterMap_means (List.nodup_dedup (rows.map (·.entityId))) (entityMean round rows f)
  have hset : (rows.map (·.entityId)).dedup.toFinset = (rows.map (·.entityId)).toFinset := by
    ext e
    simp
  rw [hset] at hsum hlength
  have hnil : (rows.map (·.entityId)).dedup.filterMap (entityMean round rows f) = [] ↔
      withMean round rows f = ∅ := by
    rw [← List.length_eq_zero_iff, hlength, Finset.card_eq_zero]
    rfl
  simp only [Query.value, entitiesOf, hmeans, stepValue, hnil, hsum, hlength]
  split
  · rfl
  · split
    · rfl
    · rfl

/-- There is no mean exactly when no reading is a number. -/
theorem mean_eq_none_iff {values : List (Option Reading)} :
    mean values = none ↔ ∀ x, some (Reading.number x) ∉ values := by
  have hnumbers : (values.filterMap fun v => v.bind Reading.number?) = [] ↔
      ∀ x, some (Reading.number x) ∉ values := by
    rw [List.filterMap_eq_nil_iff]
    constructor
    · intro h x hx
      exact nomatch h _ hx
    · intro h v hv
      match v with
      | none => rfl
      | some .nan => rfl
      | some (.number x) => exact absurd hv (h x)
  rw [← hnumbers, mean]
  split
  · next h => exact ⟨fun _ => h, fun _ => rfl⟩
  · next h => exact ⟨fun h' => (nomatch h'), fun h' => absurd h' h⟩

/-- A step has no value exactly when no row has a number. -/
theorem stepValue_eq_none_iff {rows : List MetricSample} {f : String} :
    stepValue round rows f = none ↔ ∀ r ∈ rows, ∀ x, r.values f ≠ some (.number x) := by
  have hempty : stepValue round rows f = none ↔ withMean round rows f = ∅ := by
    rw [stepValue]
    split
    · next h => exact ⟨fun _ => h, fun _ => rfl⟩
    · next h => exact ⟨fun h' => (nomatch h'), fun h' => absurd h' h⟩
  rw [hempty, withMean, Finset.filter_eq_empty_iff]
  constructor
  · intro h r hr x hx
    have hnone := h (List.mem_toFinset.mpr (List.mem_map.mpr ⟨r, hr, rfl⟩))
    rw [Option.not_isSome_iff_eq_none, entityMean, roundedMean, Option.map_eq_none_iff,
      mean_eq_none_iff] at hnone
    exact hnone x (List.mem_map.mpr ⟨r, List.mem_filter.mpr ⟨hr, by simp⟩, hx⟩)
  · intro h e _
    rw [Option.not_isSome_iff_eq_none, entityMean, roundedMean, Option.map_eq_none_iff,
      mean_eq_none_iff]
    intro x hx
    obtain ⟨r, hr, hx⟩ := List.mem_map.mp hx
    exact h r (List.mem_of_mem_filter hr) x hx

end Means

/-! ## Steps and labels -/

section Steps

variable {round : ℚ → ℚ} {clock : Clock} {q : Query} {rows : List MetricSample}

/-- The steps of a range are positive, and no longer than the range. -/
theorem planRange_step (name : String) :
    0 < (planRange name).step ∧ (planRange name).step ≤ (planRange name).span := by
  unfold planRange
  cases hname : ranges.lookup name with
  | none => decide
  | some span =>
      obtain ⟨before, after, hranges, -⟩ := List.lookup_eq_some_iff.mp hname
      have hspan : span ∈ ranges.map Prod.snd :=
        List.mem_map.mpr ⟨(name, span), by rw [hranges]; simp, rfl⟩
      simp only [ranges, List.map_cons, List.map_nil, List.mem_cons, List.not_mem_nil,
        or_false] at hspan
      rcases hspan with rfl | rfl | rfl | rfl | rfl
      all_goals decide

theorem step_pos : 0 < q.plan.step := (planRange_step q.rangeName).1

theorem stepMicros_pos : 0 < q.plan.step * second := mul_pos step_pos (by decide)

theorem bucket_eq (t : Int) : q.bucket clock t = q.stepAt (clock.timestamp t) * q.plan.step := rfl

/-- The number of the step before the first point, and that of the last point. -/
theorem labels_eq : q.labels clock =
    range ((q.stepAt (clock.timestamp (q.start clock)) + 1) * q.plan.step)
      (q.stepAt (clock.timestamp clock.now) * q.plan.step + 1) q.plan.step := by
  rw [Query.labels, bucket_eq, bucket_eq, add_mul, one_mul]

/-- The labels are the steps after that of the start, up to the one of the present. -/
theorem mem_labels_iff {k : Int} : k * q.plan.step ∈ q.labels clock ↔
    q.stepAt (clock.timestamp (q.start clock)) < k ∧ k ≤ q.stepAt (clock.timestamp clock.now) := by
  rw [labels_eq, mem_range_iff step_pos]
  exact Iff.rfl

/-- A label is a multiple of the step. -/
theorem exists_of_mem_labels {b : Int} (h : b ∈ q.labels clock) : ∃ k, b = k * q.plan.step := by
  rw [labels_eq] at h
  exact exists_of_mem_range h

/-- The range is at least one step long. -/
theorem head?_labels : (q.labels clock).head? =
    some ((q.stepAt (clock.timestamp (q.start clock)) + 1) * q.plan.step) := by
  rw [labels_eq]
  apply head?_range step_pos
  refine (le_stepOf_iff stepMicros_pos).mpr ?_
  have hspan := (planRange_step q.rangeName).2
  have hdiv : q.stepAt (clock.timestamp (q.start clock)) * (q.plan.step * second) ≤
      clock.timestamp (q.start clock) := (le_stepOf_iff stepMicros_pos).mp (le_refl _)
  have hlength : clock.timestamp clock.now =
      clock.timestamp (q.start clock) + q.plan.span * second := by
    simp only [Clock.timestamp, Query.start]
    ring
  have hle : q.plan.step * second ≤ q.plan.span * second :=
    mul_le_mul_of_nonneg_right hspan (by decide)
  rw [hlength, add_mul, one_mul]
  exact add_le_add hdiv hle

/-- A time is in the step that it is rounded down to. -/
theorem inStep_iff {k t : Int} : q.InStep (k * q.plan.step) t ↔ q.stepAt t = k := by
  rw [Query.stepAt, stepOf_eq_iff stepMicros_pos, Query.InStep]
  have hfirst : k * q.plan.step * second = k * (q.plan.step * second) := by ring
  have hnext : (k * q.plan.step + q.plan.step) * second = (k + 1) * (q.plan.step * second) := by
    ring
  rw [hfirst, hnext]

/-- The rows of a step are those asked for whose timestamp falls into it. -/
theorem mem_bucketRows_iff {r : MetricSample} {k : Int} :
    r ∈ q.bucketRows clock rows (k * q.plan.step) ↔
      r ∈ rows ∧ q.Asks (stampOf r) ∧ (q.start clock ≤ r.ts ∧ r.ts ≤ clock.now) ∧
        q.stepAt (clock.timestamp r.ts) = k := by
  have hbucket : q.bucket clock r.ts = k * q.plan.step ↔ q.stepAt (clock.timestamp r.ts) = k := by
    rw [bucket_eq]
    constructor
    · exact Int.eq_of_mul_eq_mul_right step_pos.ne'
    · intro h
      rw [h]
  simp only [Query.bucketRows, Query.selected, List.mem_filter, decide_eq_true_eq, hbucket,
    Query.Asks, stampOf]
  tauto

/-- The first point is that of the step after the one in which the range starts. -/
theorem first_le_iff {t : Int} {p₀ : Point}
    (h : p₀ ∈ (q.series round clock rows).points.head?) :
    p₀.ts * second ≤ t ↔ q.stepAt (clock.timestamp (q.start clock)) < q.stepAt t := by
  have hhead : (q.series round clock rows).points.head? = some (q.point round clock rows
      ((q.stepAt (clock.timestamp (q.start clock)) + 1) * q.plan.step)) := by
    rw [Query.series, List.head?_map, head?_labels]
    rfl
  rw [hhead] at h
  cases h
  rw [← Int.add_one_le_iff, Query.stepAt, Query.stepAt, le_stepOf_iff stepMicros_pos,
    ← mul_assoc]
  exact Iff.rfl

/-- A time in the range is not after the last step. -/
theorem stepAt_le_last {t : Int} (h : t ≤ clock.now) :
    q.stepAt (clock.timestamp t) ≤ q.stepAt (clock.timestamp clock.now) := by
  apply stepOf_mono stepMicros_pos
  exact Int.sub_le_sub_right h _

/-! ## Right series -/

/-- A sample in its place counts in the point of its step only. -/
theorem placed_of_inPlace {r : MetricSample} (hr : r ∈ rows) (hasks : q.Asks (stampOf r))
    (hplace : q.InPlace clock r.ts)
    (hshown : q.stepAt (clock.timestamp (q.start clock)) < q.stepAt r.ts) :
    (∃! p, p ∈ (q.series round clock rows).points ∧ r ∈ q.bucketRows clock rows p.ts) ∧
      ∀ p ∈ (q.series round clock rows).points, r ∈ q.bucketRows clock rows p.ts →
        q.plan.step ∣ p.ts ∧ q.InStep p.ts r.ts := by
  obtain ⟨hrange, hstep⟩ := hplace (.inl hshown)
  have hlabel : q.stepAt r.ts * q.plan.step ∈ q.labels clock := by
    rw [mem_labels_iff]
    refine ⟨hshown, ?_⟩
    rw [← hstep]
    exact stepAt_le_last hrange.2
  have hbucket : r ∈ q.bucketRows clock rows (q.stepAt r.ts * q.plan.step) :=
    mem_bucketRows_iff.mpr ⟨hr, hasks, hrange, hstep⟩
  -- the buckets of points are steps, and the row is in one of them only
  have honly : ∀ b ∈ q.labels clock, r ∈ q.bucketRows clock rows b →
      b = q.stepAt r.ts * q.plan.step := by
    intro b hb hin
    obtain ⟨k, rfl⟩ := exists_of_mem_labels hb
    obtain ⟨-, -, -, hk⟩ := mem_bucketRows_iff.mp hin
    rw [← hk, hstep]
  constructor
  · refine ⟨q.point round clock rows (q.stepAt r.ts * q.plan.step),
      ⟨List.mem_map.mpr ⟨_, hlabel, rfl⟩, hbucket⟩, ?_⟩
    rintro p ⟨hp, hin⟩
    obtain ⟨b, hb, rfl⟩ := List.mem_map.mp hp
    rw [honly b hb hin]
  · intro p hp hin
    obtain ⟨b, hb, rfl⟩ := List.mem_map.mp hp
    have hb' : (q.point round clock rows b).ts = q.stepAt r.ts * q.plan.step := honly b hb hin
    rw [hb']
    exact ⟨Int.dvd_mul_left _ _, inStep_iff.mpr rfl⟩

/-- With all samples in their places, a bucket consists of the samples of its step. -/
theorem bucketRows_eq {b : Int} (hb : b ∈ q.labels clock)
    (hplaces : ∀ r ∈ rows, q.Asks (stampOf r) → q.InPlace clock r.ts) :
    q.bucketRows clock rows b =
      rows.filter fun r => q.Asks (stampOf r) ∧ q.InStep b r.ts := by
  obtain ⟨k, rfl⟩ := exists_of_mem_labels hb
  have hfirst := (mem_labels_iff.mp hb).1
  rw [Query.bucketRows, Query.selected, List.filter_filter]
  apply List.filter_congr
  intro r hr
  have hmem : r ∈ q.bucketRows clock rows (k * q.plan.step) ↔ _ := mem_bucketRows_iff
  rw [Query.bucketRows, Query.selected, List.filter_filter, List.mem_filter] at hmem
  rw [Bool.eq_iff_iff]
  constructor
  · intro h
    obtain ⟨-, hasks, hrange, hk⟩ := hmem.mp ⟨hr, h⟩
    have hstep := (hplaces r hr hasks (.inr ⟨hrange, by rw [hk]; exact hfirst⟩)).2
    simpa [inStep_iff, hasks] using hstep.symm.trans hk
  · intro h
    obtain ⟨hasks, hin⟩ : q.Asks (stampOf r) ∧ q.stepAt r.ts = k := by
      simpa [inStep_iff] using h
    obtain ⟨hrange, hstep⟩ := hplaces r hr hasks (.inl (by rw [hin]; exact hfirst))
    exact (hmem.mpr ⟨hr, hasks, hrange, hstep.trans hin⟩).2

/-- Where each row is counted in its own step, the series is right. -/
theorem right_of_inPlace (hplaces : ∀ r ∈ rows, q.Asks (stampOf r) → q.InPlace clock r.ts) :
    q.Right round clock rows (q.series round clock rows).points where
  spaced := by
    have hlabels : ((q.series round clock rows).points.map (·.ts)) = q.labels clock := by
      rw [Query.series, List.map_map]
      exact List.map_id _
    rw [hlabels, labels_eq]
    exact chain_range _ _ _
  placed r hr hasks p₀ hhead hfirst :=
    placed_of_inPlace hr hasks (hplaces r hr hasks) ((first_le_iff hhead).mp hfirst)
  valued p hp := by
    obtain ⟨b, hb, rfl⟩ := List.mem_map.mp hp
    have hrows := bucketRows_eq hb hplaces
    apply List.map_congr_left
    intro f hf
    rw [value_eq hf]
    simp only [hrows]
    rfl

/-! ## What a right series needs -/

/-- A sample that counts where it should is in its place. -/
theorem inPlace_of_placed {r : MetricSample} (hr : r ∈ rows) (hasks : q.Asks (stampOf r))
    (hright : q.Right round clock rows (q.series round clock rows).points)
    (hshown : q.stepAt (clock.timestamp (q.start clock)) < q.stepAt r.ts) :
    (q.start clock ≤ r.ts ∧ r.ts ≤ clock.now) ∧
      q.stepAt (clock.timestamp r.ts) = q.stepAt r.ts := by
  obtain ⟨p₀, hhead⟩ : ∃ p₀, p₀ ∈ (q.series round clock rows).points.head? := by
    rw [Query.series, List.head?_map, head?_labels]
    exact ⟨_, rfl⟩
  obtain ⟨⟨p, ⟨hp, hin⟩, -⟩, hsteps⟩ :=
    hright.placed r hr hasks p₀ hhead ((first_le_iff hhead).mpr hshown)
  have hstep := (hsteps p hp hin).2
  obtain ⟨b, hb, rfl⟩ := List.mem_map.mp hp
  obtain ⟨k, rfl⟩ := exists_of_mem_labels hb
  obtain ⟨-, -, hrange, hk⟩ := mem_bucketRows_iff.mp hin
  exact ⟨hrange, hk.trans (inStep_iff.mp hstep).symm⟩

/-- A sample that has the one reading among all samples. -/
def withReading (f : String) (s x : Stamp) : MetricSample where
  ts := x.ts
  resolution := x.resolution
  kind := x.kind
  entityId := x.entityId
  values g := if x = s ∧ g = f then some (.number 1) else none

/-- A sample from before the first point does not count in any point. -/
theorem not_counted_of_right {f : String} (hf : f ∈ q.fields) {stamps : List Stamp} {s : Stamp}
    (hs : s ∈ stamps) (hasks : q.Asks s)
    (hright : q.Right round clock (stamps.map (withReading f s))
      (q.series round clock (stamps.map (withReading f s))).points)
    (hrange : q.start clock ≤ s.ts ∧ s.ts ≤ clock.now)
    (hcounted : q.stepAt (clock.timestamp (q.start clock)) < q.stepAt (clock.timestamp s.ts)) :
    q.stepAt (clock.timestamp (q.start clock)) < q.stepAt s.ts := by
  set rows := stamps.map (withReading f s) with hrows
  set k := q.stepAt (clock.timestamp s.ts) with hk
  have hlabel : k * q.plan.step ∈ q.labels clock :=
    mem_labels_iff.mpr ⟨hcounted, stepAt_le_last hrange.2⟩
  have hin : withReading f s s ∈ q.bucketRows clock rows (k * q.plan.step) :=
    mem_bucketRows_iff.mpr ⟨List.mem_map.mpr ⟨s, hs, rfl⟩, hasks, hrange, rfl⟩
  have hvalues := hright.valued _ (List.mem_map.mpr ⟨_, hlabel, rfl⟩)
  have hvalue := congrArg Prod.snd (List.map_inj_left.mp hvalues f hf)
  simp only [value_eq hf] at hvalue
  -- the bucket has a value, so that the step has one
  have hsome : stepValue round (q.bucketRows clock rows (k * q.plan.step)) f ≠ none := by
    intro hnone
    exact stepValue_eq_none_iff.mp hnone _ hin 1 (if_pos ⟨rfl, rfl⟩)
  rw [hvalue, Ne, stepValue_eq_none_iff] at hsome
  simp only [not_forall, not_not] at hsome
  obtain ⟨r, hr, x, hx⟩ := hsome
  obtain ⟨hr, hsteps⟩ := List.mem_filter.mp hr
  obtain ⟨y, -, rfl⟩ := List.mem_map.mp hr
  have hy : y = s := by
    by_contra hne
    simp [withReading, hne] at hx
  subst hy
  have hstep : q.InStep (k * q.plan.step) y.ts := by
    have hboth := of_decide_eq_true hsteps
    exact hboth.2
  rw [inStep_iff.mp hstep]
  exact hcounted

/-- **Series are right**, whatever the readings of samples with these stamps are, exactly if
the samples are in their places. -/
theorem series_right_iff (round : ℚ → ℚ) (clock : Clock) (q : Query) (stamps : List Stamp) :
    (∀ rows : List MetricSample, rows.map stampOf = stamps →
      q.Right round clock rows (q.series round clock rows).points) ↔
        ∀ s ∈ stamps, q.Asks s → q.InPlace clock s.ts := by
  constructor
  · intro hright s hs hasks hcase
    obtain ⟨f, hf⟩ := List.exists_mem_of_ne_nil _ q.fields_ne
    have hstamps : (stamps.map (withReading f s)).map stampOf = stamps := by
      rw [List.map_map]
      exact List.map_id _
    have hone := hright _ hstamps
    have hshown : q.stepAt (clock.timestamp (q.start clock)) < q.stepAt s.ts := by
      rcases hcase with hshown | ⟨hrange, hcounted⟩
      · exact hshown
      · exact not_counted_of_right hf hs hasks hone hrange hcounted
    have hmem : withReading f s s ∈ stamps.map (withReading f s) := List.mem_map.mpr ⟨s, hs, rfl⟩
    exact inPlace_of_placed hmem hasks hone hshown
  · rintro hplaces rows rfl
    apply right_of_inPlace
    intro r hr hasks
    exact hplaces (stampOf r) (List.mem_map.mpr ⟨r, hr, rfl⟩) hasks

/-- In UTC, every sample that is not from the future is in its place. -/
theorem inPlace_of_utc {t : Int} (hutc : clock.utcOffset = 0) (ht : t ≤ clock.now) :
    q.InPlace clock t := by
  have hsame : ∀ u, clock.timestamp u = u := by
    intro u
    simp [Clock.timestamp, hutc]
  intro hcase
  rw [hsame, hsame] at hcase
  rw [hsame]
  refine ⟨?_, rfl⟩
  rcases hcase with hshown | ⟨hrange, -⟩
  · refine ⟨?_, ht⟩
    by_contra hlt
    have hmono : q.stepAt t ≤ q.stepAt (q.start clock) :=
      stepOf_mono stepMicros_pos (le_of_not_ge hlt)
    omega
  · exact hrange

end Steps

/-! ### An hour east of Greenwich -/

def hourEast : Clock := ⟨1700000000 * second, 3600⟩

def lastHour : Query := ⟨.server, [1], "1h", ["qps", "bps", "avg_ms"], by decide⟩

/-- A sample from ten minutes ago. -/
def recentSample : MetricSample :=
  ⟨(1700000000 - 600) * second, .minute, .server, 1, fun _ => some (.number 1)⟩

/-- The sample is shown in the step of an hour earlier. -/
theorem hour_east_is_wrong : ¬ lastHour.Right id hourEast [recentSample]
    (lastHour.series id hourEast [recentSample]).points := by
  intro hright
  have hplace := inPlace_of_placed List.mem_cons_self (by decide) hright (by decide)
  exact absurd hplace.2 (by decide)

end AdguardAdmin.Series
