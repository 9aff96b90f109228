import AdguardAdmin.RunLaws
import Mathlib.Algebra.BigOperators.Group.List.Basic
import Mathlib.Algebra.Ring.Rat
import Mathlib.Data.List.Dedup
/-!
# Metric samples and their hourly rollups

Every pass of the collector stores one sample for each server, agent and balancer.  About
once an hour it also turns each complete hour of samples into one row of means and
deletes what has grown too old: samples after some days, hourly rows after more days.

A rollup looks no further back than the samples are kept.  That limit falls somewhere
into an hour, and of that hour it sees the later samples, but not the row that it wrote
for the hour earlier, because the row bears the time at which the hour began.

* `rollups_exact` — as long as no rollup finds samples of an hour that the limit cuts,
  there is one hourly row at most for each entity and hour, and it holds the means of
  all samples that were stored in that hour;
* `cut_hour_is_rolled_up_again` — a rollup that finds such samples writes a second row
  for the hour.

Times are numbers of microseconds, and means are taken exactly before they are rounded.
-/

namespace AdguardAdmin.HourlyRollup

open RunLaws

/-! ## Samples -/

inductive Kind where
  | server
  | agent
  | loadBalancer
  deriving DecidableEq, Repr

inductive Resolution where
  | minute
  | hour
  deriving DecidableEq, Repr

/-- A number of a sample. -/
inductive Reading where
  | number (q : ℚ)
  | nan
  deriving DecidableEq, Repr

def Reading.number? : Reading → Option ℚ
  | .number q => some q
  | .nan => none

abbrev Values := String → Option Reading

structure MetricSample where
  ts : Int
  resolution : Resolution
  kind : Kind
  entityId : Nat
  values : Values

structure Settings where
  metricsEnabled : Bool
  metricsRetentionDays : Int
  metricsRollupRetentionDays : Int
  deriving DecidableEq, Repr

def hour : Int := 3600 * 1000000

def day : Int := 24 * hour

/-- `replace(minute=0, second=0, microsecond=0)`. -/
def startOfHour (t : Int) : Int := t - t % hour

abbrev Key := Kind × Nat × Int

/-- The entity of a row and the hour that it falls into. -/
def MetricSample.key (r : MetricSample) : Key := (r.kind, r.entityId, startOfHour r.ts)

/-- The fields that a rollup takes the mean of. -/
def averaged : List String :=
  ["online", "in_sync", "qps", "bps", "avg_ms", "queries_24h", "blocked_24h",
    "load1", "load5", "load15", "mem_used", "disk_used", "services_down", "cert_days",
    "vip_owner", "director", "backends_up", "backends_total", "cache_hit"]

/-- The mean of the readings that are numbers. -/
def mean (values : List (Option Reading)) : Option ℚ :=
  let xs := values.filterMap fun v => v.bind Reading.number?
  if xs = [] then none else some (xs.sum / xs.length)

/-! ## The housekeeping -/

section Housekeeping

-- `round` is Python's rounding to three digits
variable (round : ℚ → ℚ)

/-- The hourly row of a key. -/
def summary (key : Key) (rows : List MetricSample) : MetricSample where
  ts := key.2.2
  resolution := .hour
  kind := key.1
  entityId := key.2.1
  values k :=
    if k = "samples" then some (.number rows.length)
    else if k ∈ averaged then ((mean (rows.map (·.values k))).map round).map .number
    else none

variable (settings : Settings)

/-- How far back the samples are kept. -/
def Settings.floor (now : Int) : Int := now - settings.metricsRetentionDays * day

def Settings.rollupFloor (now : Int) : Int := now - settings.metricsRollupRetentionDays * day

/-- The samples that a rollup looks at. -/
def window (rows : List MetricSample) (now : Int) : List MetricSample :=
  rows.filter fun r =>
    r.resolution = .minute ∧ settings.floor now ≤ r.ts ∧ r.ts < startOfHour now

/-- The hours that are rolled up already, by the time that their rows bear. -/
def done (rows : List MetricSample) (now : Int) : List Key :=
  (rows.filter fun r => r.resolution = .hour ∧ settings.floor now ≤ r.ts).map fun r =>
    (r.kind, r.entityId, r.ts)

/-- The new rows of a rollup.  In which order they are added does not matter. -/
def rollup (rows : List MetricSample) (now : Int) : List MetricSample :=
  let groups := ((window settings rows now).map (·.key)).dedup.filter
    (· ∉ done settings rows now)
  groups.map fun key =>
    summary round key ((window settings rows now).filter fun r => r.key = key)

def prune (rows : List MetricSample) (now : Int) : List MetricSample :=
  (rows.filter fun r => ¬ (r.resolution = .minute ∧ r.ts < settings.floor now)).filter fun r =>
    ¬ (r.resolution = .hour ∧ r.ts < settings.rollupFloor now)

end Housekeeping

/-! ## The collector -/

/-- What a pass has read of the fleet: the values of every server that it asked, the
servers that still have a row, and the values of the agents and balancers. -/
structure Fleet where
  outcomes : List (Nat × Values)
  servers : List Nat
  agents : List (Nat × Values)
  balancers : List (Nat × Bool × Values)

def Fleet.samples (f : Fleet) (now : Int) : List MetricSample :=
  (f.outcomes.filter (·.1 ∈ f.servers)).map (fun o => ⟨now, .minute, .server, o.1, o.2⟩) ++
    f.agents.map (fun a => ⟨now, .minute, .agent, a.1, a.2⟩) ++
      (f.balancers.filter (·.2.1)).map fun b => ⟨now, .minute, .loadBalancer, b.1, b.2.2⟩

/-- How a pass ends: it may fail before its samples are stored, or while it tidies up. -/
inductive Outcome where
  | done
  | notStored
  | notTidied
  deriving DecidableEq, Repr

/-- The table, everything that was ever stored in it as a sample, the time of the last
rollup as the process remembers it, and the time of the last pass. -/
structure Store where
  rows : List MetricSample
  stored : List MetricSample
  lastRollup : Option Int
  clock : Int

inductive Event where
  /-- A pass that begins `elapsed` microseconds after the last one. -/
  | collectAll (elapsed : Nat) (fleet : Fleet) (o : Outcome)
  | restart

namespace Store

variable (round : ℚ → ℚ) (settings : Settings) (s : Store)

def add (now : Int) (samples : List MetricSample) : Store :=
  { s with rows := s.rows ++ samples, stored := s.stored ++ samples, clock := now }

def tidy (now : Int) : Store :=
  { s with
    rows := prune settings (s.rows ++ rollup round settings s.rows now) now
    lastRollup := some now }

/-- The last rollup is an hour old, or unknown. -/
def due (now : Int) : Bool := s.lastRollup.all fun last => hour ≤ now - last

def step : Event → Store
  | .collectAll elapsed fleet o =>
      let now := s.clock + elapsed
      if settings.metricsEnabled = false ∨ o = .notStored then s.add now []
      else if s.due now = true ∧ o = .done then
        (s.add now (fleet.samples now)).tidy round settings now
      else s.add now (fleet.samples now)
  | .restart => { s with lastRollup := none }

end Store

/-- An empty table. -/
def start (clock : Int) : Store := ⟨[], [], none, clock⟩

/-! ## What is promised -/

def hours (rows : List MetricSample) : List MetricSample := rows.filter (·.resolution = .hour)

def minutes (rows : List MetricSample) : List MetricSample := rows.filter (·.resolution = .minute)

/-- One hourly row at most for each entity and hour, and its means are those of all the
samples that were stored in that hour. -/
structure Store.Faithful (round : ℚ → ℚ) (s : Store) : Prop where
  unique : ((hours s.rows).map (·.key)).Nodup
  exact : ∀ h ∈ hours s.rows, ∀ k ∈ averaged, h.values k =
    ((mean ((s.stored.filter fun r => r.key = h.key).map (·.values k))).map round).map .number

/-- The pass gets to roll up. -/
def Store.rollsUp (settings : Settings) (s : Store) : Event → Bool
  | .collectAll elapsed _ o =>
      settings.metricsEnabled && o = .done && s.due (s.clock + elapsed)
  | .restart => false

/-- A rollup finds no samples of an hour that began before the time up to which samples
are kept, unless it deletes the row for that hour at once. -/
def Uncut (settings : Settings) (s : Store) : Event → Prop
  | .collectAll elapsed fleet o =>
      s.rollsUp settings (.collectAll elapsed fleet o) = true →
        ∀ r ∈ window settings s.rows (s.clock + elapsed),
          startOfHour r.ts < settings.floor (s.clock + elapsed) →
            startOfHour r.ts < settings.rollupFloor (s.clock + elapsed)
  | .restart => True

instance (settings : Settings) (s : Store) : DecidablePred (Uncut settings s)
  | .collectAll _ _ _ => inferInstanceAs (Decidable (_ → _))
  | .restart => isTrue trivial

/-! ## Hours -/

/-- An hour starts before each of its times. -/
theorem startOfHour_le (t : Int) : startOfHour t ≤ t := by
  unfold startOfHour hour
  omega

theorem lt_startOfHour_add (t : Int) : t < startOfHour t + hour := by
  unfold startOfHour hour
  omega

@[simp] theorem startOfHour_startOfHour (t : Int) : startOfHour (startOfHour t) = startOfHour t := by
  unfold startOfHour hour
  omega

/-- An hour that begins before another one is over when that one begins. -/
theorem startOfHour_add_le {t u : Int} (h : t < startOfHour u) :
    startOfHour t + hour ≤ startOfHour u := by
  unfold startOfHour hour at *
  omega

/-- A time that an hour has ended by is in a later one. -/
theorem startOfHour_ne {t u : Int} (ht : startOfHour t = t) (h : t + hour ≤ u) :
    startOfHour u ≠ t := by
  unfold startOfHour hour at *
  omega

/-! ## Rows of one kind -/

section Rows

variable {round : ℚ → ℚ} {settings : Settings} {rows : List MetricSample} {now : Int}

@[simp] theorem hours_append (rows rows' : List MetricSample) :
    hours (rows ++ rows') = hours rows ++ hours rows' := List.filter_append ..

@[simp] theorem minutes_append (rows rows' : List MetricSample) :
    minutes (rows ++ rows') = minutes rows ++ minutes rows' := List.filter_append ..

/-- A pass stores samples of its own time. -/
theorem samples_spec {f : Fleet} {r : MetricSample} (h : r ∈ f.samples now) :
    r.resolution = .minute ∧ r.ts = now := by
  unfold Fleet.samples at h
  simp only [List.mem_append, List.mem_map] at h
  rcases h with (⟨o, -, rfl⟩ | ⟨a, -, rfl⟩) | ⟨b, -, rfl⟩ <;> exact ⟨rfl, rfl⟩

/-- A row of the rollup is the summary of an hour that had none. -/
theorem mem_rollup {n : MetricSample} (h : n ∈ rollup round settings rows now) :
    ∃ key, (∃ r ∈ window settings rows now, r.key = key) ∧ key ∉ done settings rows now ∧
      n = summary round key ((window settings rows now).filter fun r => r.key = key) := by
  unfold rollup at h
  obtain ⟨key, hkey, rfl⟩ := List.mem_map.mp h
  rw [List.mem_filter, List.mem_dedup, List.mem_map] at hkey
  exact ⟨key, hkey.1, by simpa using hkey.2, rfl⟩

/-- The window has the minutes from the floor on to the start of this hour. -/
theorem mem_window {r : MetricSample} (h : r ∈ window settings rows now) :
    r ∈ minutes rows ∧ settings.floor now ≤ r.ts ∧ r.ts < startOfHour now := by
  unfold window at h
  obtain ⟨hr, hall⟩ := List.mem_filter.mp h
  obtain ⟨hresolution, hrest⟩ := of_decide_eq_true hall
  exact ⟨List.mem_filter.mpr ⟨hr, by simpa using hresolution⟩, hrest⟩

/-- The key of a new hourly row is the one that its samples have. -/
theorem summary_key {key : Key} {r : MetricSample} (h : r.key = key)
    (group : List MetricSample) : (summary round key group).key = key := by
  rw [← h]
  simp [summary, MetricSample.key]

/-- The rollup consists of hours. -/
theorem hours_rollup : hours (rollup round settings rows now) = rollup round settings rows now := by
  unfold hours
  rw [List.filter_eq_self]
  intro n hn
  obtain ⟨key, -, -, rfl⟩ := mem_rollup hn
  rfl

/-- A rollup leaves no minutes. -/
theorem minutes_rollup : minutes (rollup round settings rows now) = [] := by
  unfold minutes
  rw [List.filter_eq_nil_iff]
  intro n hn
  obtain ⟨key, -, -, rfl⟩ := mem_rollup hn
  simp [summary]

/-- Hours are kept up to their own floor. -/
theorem hours_prune : hours (prune settings rows now) =
    (hours rows).filter fun r => settings.rollupFloor now ≤ r.ts := by
  unfold hours prune
  rw [List.filter_filter, List.filter_filter, List.filter_filter]
  apply List.filter_congr
  intro r _
  cases r.resolution <;> simp

/-- Minutes are kept up to theirs. -/
theorem minutes_prune : minutes (prune settings rows now) =
    (minutes rows).filter fun r => settings.floor now ≤ r.ts := by
  unfold minutes prune
  rw [List.filter_filter, List.filter_filter, List.filter_filter]
  apply List.filter_congr
  intro r _
  cases r.resolution <;> simp

/-- A rollup writes one row for each key. -/
theorem rollup_keys : ((rollup round settings rows now).map (·.key)).Nodup := by
  have hgroups : (((window settings rows now).map (·.key)).dedup.filter
      (· ∉ done settings rows now)).Nodup :=
    (List.nodup_dedup _).filter _
  unfold rollup
  rw [List.map_map]
  refine hgroups.map_on fun key hkey key' hkey' heq => ?_
  obtain ⟨r, -, hr⟩ := List.mem_map.mp (List.mem_dedup.mp (List.mem_filter.mp hkey).1)
  obtain ⟨r', -, hr'⟩ := List.mem_map.mp (List.mem_dedup.mp (List.mem_filter.mp hkey').1)
  simp only [Function.comp_apply] at heq
  rw [summary_key hr, summary_key hr'] at heq
  exact heq

/-- A rollup writes rows of hours that are over. -/
theorem rollup_over {n : MetricSample} (hn : n ∈ rollup round settings rows now) :
    startOfHour n.ts = n.ts ∧ n.ts + hour ≤ now := by
  obtain ⟨key, ⟨r, hr, rfl⟩, -, rfl⟩ := mem_rollup hn
  refine ⟨startOfHour_startOfHour r.ts, ?_⟩
  exact Int.le_trans (startOfHour_add_le (mem_window hr).2.2) (startOfHour_le now)

/-- A rollup takes an hour that is cut for one that has no row. -/
theorem rollup_cut (round : ℚ → ℚ) {r : MetricSample} (hr : r ∈ window settings rows now)
    (hcut : startOfHour r.ts < settings.floor now) :
    ∃ n ∈ rollup round settings rows now, n.key = r.key ∧ n.ts = startOfHour r.ts := by
  refine ⟨summary round r.key ((window settings rows now).filter fun w => w.key = r.key), ?_,
    summary_key rfl _, rfl⟩
  unfold rollup
  rw [List.mem_map]
  refine ⟨r.key, ?_, rfl⟩
  rw [List.mem_filter, List.mem_dedup]
  refine ⟨List.mem_map_of_mem hr, ?_⟩
  -- the rows that count as done are of later hours
  rw [decide_eq_true_eq]
  intro hdone
  unfold done at hdone
  obtain ⟨h, hh, hkey⟩ := List.mem_map.mp hdone
  have hreach := (of_decide_eq_true (List.mem_filter.mp hh).2).2
  have hts : h.ts = startOfHour r.ts := congrArg (·.2.2) hkey
  omega

/-- An hourly row that is still in reach keeps its hour from being rolled up again. -/
theorem rollup_fresh {h n : MetricSample} (hh : h ∈ hours rows) (haligned : startOfHour h.ts = h.ts)
    (hn : n ∈ rollup round settings rows now) (hkey : h.key = n.key) :
    h.ts < settings.floor now := by
  obtain ⟨key, ⟨r, -, hr⟩, hnew, rfl⟩ := mem_rollup hn
  rw [summary_key hr] at hkey
  by_contra hreach
  apply hnew
  unfold done
  rw [List.mem_map]
  obtain ⟨hrow, hresolution⟩ := List.mem_filter.mp hh
  refine ⟨h, List.mem_filter.mpr ⟨hrow, ?_⟩, ?_⟩
  · simp only [decide_eq_true_eq] at hresolution ⊢
    exact ⟨hresolution, by omega⟩
  · rw [← hkey, MetricSample.key, haligned]

end Rows

/-! ## What holds between passes -/

/-- The samples that are young enough are all there, every hourly row is of an hour that is
over, and what is promised. -/
structure Store.Orderly (round : ℚ → ℚ) (settings : Settings) (s : Store) : Prop
    extends Store.Faithful round s where
  kept : ∀ t, settings.floor s.clock ≤ t →
    (minutes s.rows).filter (fun r => t ≤ r.ts) = s.stored.filter fun r => t ≤ r.ts
  past : ∀ r ∈ s.stored, r.ts ≤ s.clock
  ended : ∀ h ∈ hours s.rows, startOfHour h.ts = h.ts ∧ h.ts + hour ≤ s.clock

section Orderly

variable {round : ℚ → ℚ} {settings : Settings} {s : Store} {now : Int}

theorem floor_mono {t u : Int} (h : t ≤ u) : settings.floor t ≤ settings.floor u := by
  unfold Settings.floor
  omega

/-- Storing samples of a later time leaves every hourly row right. -/
theorem Store.Orderly.add (hs : s.Orderly round settings) (hnow : s.clock ≤ now)
    {samples : List MetricSample}
    (hsamples : ∀ r ∈ samples, r.resolution = .minute ∧ r.ts = now) :
    (s.add now samples).Orderly round settings := by
  have hhours : hours samples = [] := by
    unfold hours
    rw [List.filter_eq_nil_iff]
    intro r hr
    simp [(hsamples r hr).1]
  have hminutes : minutes samples = samples := by
    unfold minutes
    rw [List.filter_eq_self]
    intro r hr
    simp [(hsamples r hr).1]
  have hrows : hours (s.add now samples).rows = hours s.rows := by
    simp [Store.add, hhours]
  refine
    { unique := ?_
      exact := ?_
      kept := ?_
      past := ?_
      ended := ?_ }
  · rw [hrows]
    exact hs.unique
  · intro h hh k hk
    rw [hrows] at hh
    obtain ⟨haligned, hover⟩ := hs.ended h hh
    -- the new samples are of a later hour
    have hnone : samples.filter (fun r => r.key = h.key) = [] := by
      rw [List.filter_eq_nil_iff]
      intro r hr hkey
      have hstart : startOfHour now = h.ts := by
        have heq := congrArg (·.2.2) (of_decide_eq_true hkey)
        simpa [MetricSample.key, (hsamples r hr).2, haligned] using heq
      exact startOfHour_ne haligned (by omega) hstart
    simp only [Store.add, List.filter_append, hnone, List.append_nil]
    exact hs.exact h hh k hk
  · intro t ht
    have hold := hs.kept t (Int.le_trans (floor_mono hnow) ht)
    simp only [Store.add, minutes_append, hminutes, List.filter_append, hold]
  · intro r hr
    rcases List.mem_append.mp hr with hr | hr
    · exact Int.le_trans (hs.past r hr) hnow
    · exact Int.le_of_eq (hsamples r hr).2
  · intro h hh
    rw [hrows] at hh
    obtain ⟨haligned, hover⟩ := hs.ended h hh
    exact ⟨haligned, Int.le_trans hover hnow⟩

/-- The samples that a rollup finds of an hour that it may look at are all of them. -/
theorem window_complete (hs : s.Orderly round settings) {key : Key}
    (hkey : ∃ r ∈ window settings s.rows s.clock, r.key = key)
    (hreach : settings.floor s.clock ≤ key.2.2) :
    (window settings s.rows s.clock).filter (fun r => r.key = key) =
      s.stored.filter fun r => r.key = key := by
  obtain ⟨w, hw, hwkey⟩ := hkey
  have hend : key.2.2 + hour ≤ startOfHour s.clock := by
    rw [← hwkey]
    have hlt : w.ts < startOfHour s.clock := (mem_window hw).2.2
    exact startOfHour_add_le hlt
  -- a sample of the hour is young enough, and its hour is over
  have hinside : ∀ r : MetricSample, r.key = key →
      settings.floor s.clock ≤ r.ts ∧ r.ts < startOfHour s.clock := by
    intro r hr
    have hstart : startOfHour r.ts = key.2.2 := congrArg (·.2.2) hr
    have hle := startOfHour_le r.ts
    have hlt := lt_startOfHour_add r.ts
    omega
  calc (window settings s.rows s.clock).filter (fun r => r.key = key)
      = ((minutes s.rows).filter fun r => settings.floor s.clock ≤ r.ts).filter
          fun r => r.key = key := by
        unfold window minutes
        rw [List.filter_filter, List.filter_filter, List.filter_filter]
        apply List.filter_congr
        intro r _
        by_cases hr : r.key = key
        · simp [hr, hinside r hr]
        · simp [hr]
    _ = (s.stored.filter fun r => settings.floor s.clock ≤ r.ts).filter
          fun r => r.key = key := by
        rw [hs.kept _ (Int.le_refl _)]
    _ = s.stored.filter fun r => r.key = key := by
        rw [List.filter_filter]
        apply List.filter_congr
        intro r _
        by_cases hr : r.key = key
        · simp [hr, hinside r hr]
        · simp [hr]

/-- When no hour is cut, a new row that stays is of an hour that the rollup may look at. -/
theorem rollup_reach
    (huncut : ∀ r ∈ window settings s.rows s.clock, startOfHour r.ts < settings.floor s.clock →
      startOfHour r.ts < settings.rollupFloor s.clock)
    {n : MetricSample} (hn : n ∈ rollup round settings s.rows s.clock)
    (hstays : settings.rollupFloor s.clock ≤ n.ts) : settings.floor s.clock ≤ n.ts := by
  obtain ⟨key, ⟨r, hr, hkey⟩, -, rfl⟩ := mem_rollup hn
  have hstart : startOfHour r.ts = key.2.2 := congrArg (·.2.2) hkey
  by_contra hcut
  have hpruned := huncut r hr (by simp only [summary] at hcut; omega)
  simp only [summary] at hstays
  omega

/-- The hours after a pass are those that are kept, and the new ones that are. -/
theorem hours_tidy : hours (s.tidy round settings now).rows =
    (hours s.rows).filter (fun r => settings.rollupFloor now ≤ r.ts) ++
      (rollup round settings s.rows now).filter fun r => settings.rollupFloor now ≤ r.ts := by
  simp only [Store.tidy]
  rw [hours_prune, hours_append, hours_rollup, List.filter_append]

/-- Tidying leaves the samples that are young enough. -/
theorem minutes_tidy {t : Int} (ht : settings.floor now ≤ t) :
    (minutes (s.tidy round settings now).rows).filter (fun r => t ≤ r.ts) =
      (minutes s.rows).filter fun r => t ≤ r.ts := by
  simp only [Store.tidy]
  rw [minutes_prune, minutes_append, minutes_rollup, List.append_nil, List.filter_filter]
  apply List.filter_congr
  intro r _
  by_cases hr : t ≤ r.ts
  · simp [hr, Int.le_trans ht hr]
  · simp [hr]

/-- Rolling up and tidying keeps what is promised when no hour is cut. -/
theorem Store.Orderly.tidy (hs : s.Orderly round settings)
    (huncut : ∀ r ∈ window settings s.rows s.clock, startOfHour r.ts < settings.floor s.clock →
      startOfHour r.ts < settings.rollupFloor s.clock) :
    (s.tidy round settings s.clock).Orderly round settings := by
  refine
    { unique := ?_
      exact := ?_
      kept := ?_
      past := hs.past
      ended := ?_ }
  · rw [hours_tidy, List.map_append]
    refine List.Nodup.append ?_ ?_ ?_
    · exact hs.unique.sublist (List.filter_sublist.map _)
    · exact rollup_keys.sublist (List.filter_sublist.map _)
    · intro key hold hnew
      obtain ⟨h, hh, hkey⟩ := List.mem_map.mp hold
      obtain ⟨n, hn, hkey'⟩ := List.mem_map.mp hnew
      obtain ⟨hn, hstays⟩ := List.mem_filter.mp hn
      obtain ⟨hh, -⟩ := List.mem_filter.mp hh
      have haligned := (hs.ended h hh).1
      have hsame : h.key = n.key := hkey.trans hkey'.symm
      have hts : h.ts = n.ts := by
        rw [← haligned, ← (rollup_over hn).1]
        exact congrArg (·.2.2) hsame
      have hfresh := rollup_fresh hh haligned hn hsame
      have hreach := rollup_reach huncut hn (of_decide_eq_true hstays)
      omega
  · intro h hh k hk
    rw [hours_tidy, List.mem_append, List.mem_filter, List.mem_filter] at hh
    rcases hh with ⟨hh, -⟩ | ⟨hn, hstays⟩
    · exact hs.exact h hh k hk
    · have hinside := rollup_reach huncut hn (of_decide_eq_true hstays)
      obtain ⟨key, hkey, -, rfl⟩ := mem_rollup hn
      have hcomplete := window_complete hs hkey hinside
      obtain ⟨r, -, hr⟩ := hkey
      have hsamples : k ≠ "samples" := by
        intro heq
        rw [heq] at hk
        revert hk
        decide
      have hstored : (s.tidy round settings s.clock).stored = s.stored := rfl
      rw [summary_key hr, hstored, ← hcomplete]
      simp only [summary, if_neg hsamples, if_pos hk]
  · intro t ht
    have hfloor : settings.floor s.clock ≤ t := ht
    exact (minutes_tidy hfloor).trans (hs.kept t hfloor)
  · intro h hh
    rw [hours_tidy, List.mem_append, List.mem_filter, List.mem_filter] at hh
    rcases hh with ⟨hh, -⟩ | ⟨hn, -⟩
    · exact hs.ended h hh
    · exact rollup_over hn

/-- The samples of a pass are of an hour that is not over. -/
theorem window_samples (rows : List MetricSample) (f : Fleet) :
    window settings (rows ++ f.samples now) now = window settings rows now := by
  have hnone : window settings (f.samples now) now = [] := by
    unfold window
    rw [List.filter_eq_nil_iff]
    intro r hr
    have hle := startOfHour_le now
    simp only [decide_eq_true_eq, (samples_spec hr).2]
    omega
  unfold window at hnone ⊢
  rw [List.filter_append, hnone, List.append_nil]

/-- A pass that cuts no hour keeps the store orderly. -/
theorem orderly_step (hs : s.Orderly round settings) {e : Event} (huncut : Uncut settings s e) :
    (s.step round settings e).Orderly round settings := by
  cases e with
  | restart => exact { hs with }
  | collectAll elapsed fleet o =>
      have hlater : s.clock ≤ s.clock + (elapsed : Int) := by omega
      have hadded := hs.add hlater fun r hr => samples_spec (f := fleet) hr
      simp only [Store.step]
      split
      · exact hs.add hlater (by simp)
      · split
        · rename_i henabled hdue
          refine hadded.tidy ?_
          simp only [Store.add]
          rw [window_samples]
          apply huncut
          simp only [Store.rollsUp]
          grind
        · exact hadded

/-- An empty store is orderly. -/
theorem orderly_start (clock : Int) : (start clock).Orderly round settings where
  unique := List.nodup_nil
  exact := by simp [start, hours]
  kept := by simp [start, minutes]
  past := by simp [start]
  ended := by simp [start, hours]

/-- The hourly rows that a pass leaves which rolls up. -/
theorem hours_step {elapsed : Nat} {fleet : Fleet} {o : Outcome} (hnow : now = s.clock + elapsed)
    (hrolls : s.rollsUp settings (.collectAll elapsed fleet o) = true) :
    hours (s.step round settings (.collectAll elapsed fleet o)).rows =
      (hours s.rows ++ rollup round settings (s.rows ++ fleet.samples now) now).filter
        fun r => settings.rollupFloor now ≤ r.ts := by
  have hnone : hours (fleet.samples now) = [] := by
    unfold hours
    rw [List.filter_eq_nil_iff]
    intro r hr
    simp [(samples_spec hr).1]
  simp only [Store.rollsUp, Bool.and_eq_true, decide_eq_true_eq] at hrolls
  obtain ⟨⟨henabled, hdone⟩, hdue⟩ := hrolls
  rw [← hnow] at hdue
  simp only [Store.step, ← hnow, henabled, hdone, hdue]
  simp [Store.tidy, Store.add, hours_prune, hours_rollup, hnone]

/-- **A rollup that cuts an hour which has its row writes a second one.** -/
theorem cut_hour_is_rolled_up_again {elapsed : Nat} {fleet : Fleet} {o : Outcome}
    (hnow : now = s.clock + elapsed)
    (hrolls : s.rollsUp settings (.collectAll elapsed fleet o) = true)
    {r h : MetricSample} (hr : r ∈ window settings s.rows now)
    (hcut : startOfHour r.ts < settings.floor now)
    (hstays : settings.rollupFloor now ≤ startOfHour r.ts) (hh : h ∈ hours s.rows)
    (haligned : startOfHour h.ts = h.ts) (hkey : h.key = r.key) :
    ¬ (s.step round settings (.collectAll elapsed fleet o)).Faithful round := by
  intro hfaithful
  have hunique := hfaithful.unique
  rw [hours_step hnow hrolls, List.filter_append, List.map_append] at hunique
  have hdisjoint := (List.nodup_append.mp hunique).2.2
  have hts : h.ts = startOfHour r.ts := by
    rw [← haligned]
    exact congrArg (·.2.2) hkey
  have hwindow : r ∈ window settings (s.rows ++ fleet.samples now) now := by
    rw [window_samples]
    exact hr
  obtain ⟨n, hn, hnkey, hnts⟩ := rollup_cut round hwindow hcut
  refine hdisjoint h.key ?_ n.key ?_ (hkey.trans hnkey.symm)
  · refine List.mem_map_of_mem (List.mem_filter.mpr ⟨hh, ?_⟩)
    rw [decide_eq_true_eq, hts]
    exact hstays
  · refine List.mem_map_of_mem (List.mem_filter.mpr ⟨hn, ?_⟩)
    rw [decide_eq_true_eq, hnts]
    exact hstays

end Orderly

/-! ## Whole runs -/

/-- **Rollups are exact and unique as long as they cut no hour**, over every history of
passes and restarts. -/
theorem rollups_exact {round : ℚ → ℚ} {settings : Settings} {clock : Int} {events : List Event}
    (hrun : Along (Store.step round settings) (Uncut settings) (start clock) events) :
    Throughout (Store.step round settings) (Store.Faithful round) (start clock) events := by
  have hkept : Throughout (Store.step round settings) (Store.Orderly round settings)
      (start clock) events := by
    refine throughout_of_invariant _ ?_ (orderly_start clock) hrun
    intro s e hs huncut
    exact orderly_step hs huncut
  exact throughout_mono _ (fun _ hs => hs.toFaithful) hkept

/-- Hourly rows that live no longer than samples are never seen twice. -/
theorem uncut_of_retention {settings : Settings}
    (h : settings.metricsRollupRetentionDays ≤ settings.metricsRetentionDays) (s : Store)
    (e : Event) : Uncut settings s e := by
  cases e with
  | restart => trivial
  | collectAll elapsed fleet o =>
      intro _ r _ hcut
      have hle : settings.metricsRollupRetentionDays * day ≤
          settings.metricsRetentionDays * day :=
        Int.mul_le_mul_of_nonneg_right h (by decide)
      unfold Settings.floor at hcut
      unfold Settings.rollupFloor
      omega

/-! ## A week of samples -/

/-- A week of samples, and a quarter of a year of hourly rows. -/
def defaults : Settings := ⟨true, 7, 90⟩

/-- One server, with one query a second. -/
def oneServer : Fleet where
  outcomes := [(1, fun k => if k = "qps" then some (.number 1) else none)]
  servers := [1]
  agents := []
  balancers := []

/-- Two passes, of 0:40 and of 1:40. -/
def twoPasses : List Event :=
  [.collectAll 2400000000 oneServer .done, .collectAll 3600000000 oneServer .done]

/-- The theorem applies to two passes over a week. -/
theorem rollups_exact_two_passes :
    Along (Store.step id defaults) (Uncut defaults) (start 0) twoPasses ∧
      Throughout (Store.step id defaults) (Store.Faithful id) (start 0) twoPasses := by
  have huncut : Along (Store.step id defaults) (Uncut defaults) (start 0) twoPasses := by
    decide +kernel
  exact ⟨huncut, rollups_exact huncut⟩

/-- A week later, at half past the hour, the first hour gets a second row. -/
theorem hour_rolled_up_twice :
    ¬ Throughout (Store.step id defaults) (Store.Faithful id) (start 0)
      (twoPasses ++ [.collectAll 600600000000 oneServer .done]) := by
  intro h
  have hunique := (throughout_last _ h).unique
  revert hunique
  decide +kernel

end AdguardAdmin.HourlyRollup
