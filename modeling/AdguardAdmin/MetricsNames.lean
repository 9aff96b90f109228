import AdguardAdmin.MetricsLines
/-!
# When the metrics page is valid

The samples of one server, host or balancer have different names, and those of two of them are
told apart by their labels: by the name and, if it has one, the zone, for balancers also by mode
and host.  The samples of backends are told apart by the names under which they are reported.
-/

namespace AdguardAdmin.MetricsPage

open ExpositionText
open HourlyRollup (Kind Resolution)

/-! ## Telling samples apart -/

theorem distinct_of_names {ss : List Sample} (h : (ss.map (·.name)).Nodup) : Distinct ss :=
  (List.pairwise_map.mp h).imp fun hne hsame => hne hsame.1

/-- Two parts that share no metric are distinct apart. -/
theorem distinct_append {ss ts : List Sample} (h : ∀ s ∈ ss, ∀ t ∈ ts, s.name ≠ t.name) :
    Distinct (ss ++ ts) ↔ Distinct ss ∧ Distinct ts := by
  rw [Distinct, List.pairwise_append]
  constructor
  · rintro ⟨hss, hts, -⟩
    exact ⟨hss, hts⟩
  · rintro ⟨hss, hts⟩
    exact ⟨hss, hts, fun s hs t ht hsame => h s hs t ht hsame.1⟩

/-- The samples of entities are distinct if those of each one are, and none of one is the same as
one of another. -/
theorem distinct_flatMap {ε : Type} {es : List ε} {ss : ε → List Sample} {alike : ε → ε → Prop}
    (h : ∀ e ∈ es, ∀ f ∈ es, (∃ s ∈ ss e, ∃ t ∈ ss f, SameSeries s t) ↔ alike e f) :
    Distinct (es.flatMap ss) ↔
      (∀ e ∈ es, Distinct (ss e)) ∧ es.Pairwise fun e f => ¬ alike e f := by
  rw [Distinct, List.pairwise_flatMap]
  refine and_congr_right fun _ => List.Pairwise.iff_of_mem ?_
  intro e f he hf
  rw [← h e he f hf]
  constructor
  · rintro hapart ⟨s, hs, t, ht, hsame⟩
    exact hapart s hs t ht hsame
  · intro hnone s hs t ht hsame
    exact hnone ⟨s, hs, t, ht, hsame⟩

variable {ν : Type} {py : Interpreter ν}

/-! ### Labels -/

/-- The labels written are those whose value has a text. -/
theorem mem_writtenLabels {labels : List (String × Json ν)} {key text : String} :
    (key, text) ∈ writtenLabels py labels ↔ ∃ v, (key, v) ∈ labels ∧ py.text? v = some text := by
  rw [writtenLabels, List.mem_filterMap]
  constructor
  · rintro ⟨⟨k, v⟩, hmem, heq⟩
    obtain ⟨t, htext, hpair⟩ := Option.map_eq_some_iff.mp heq
    obtain ⟨rfl, rfl⟩ := Prod.mk.inj hpair
    exact ⟨v, hmem, htext⟩
  · rintro ⟨v, hmem, htext⟩
    exact ⟨(key, v), hmem, by rw [htext]; rfl⟩

/-- With different keys, what is written under one is what is given there. -/
theorem text_of_key {labels : List (String × Json ν)} (hkeys : (labels.map (·.1)).Nodup)
    {key text : String} {v : Json ν} (hv : (key, v) ∈ labels) :
    (key, text) ∈ writtenLabels py labels ↔ py.text? v = some text := by
  rw [mem_writtenLabels]
  constructor
  · rintro ⟨w, hw, htext⟩
    have hpair : (key, w) = (key, v) := List.inj_on_of_nodup_map hkeys hw hv rfl
    obtain rfl := (Prod.mk.inj hpair).2
    exact htext
  · intro htext
    exact ⟨v, hv, htext⟩

/-- Samples that carry the same labels agree on each value both of them have. -/
theorem text_eq_of_same {labels labels' : List (String × Json ν)}
    (hkeys : (labels.map (·.1)).Nodup) (hkeys' : (labels'.map (·.1)).Nodup)
    (hsame : ∀ label, label ∈ writtenLabels py labels ↔ label ∈ writtenLabels py labels')
    {key : String} {v v' : Json ν} (hv : (key, v) ∈ labels) (hv' : (key, v') ∈ labels') :
    py.text? v = py.text? v' := by
  ext text
  rw [← text_of_key hkeys hv, ← text_of_key hkeys' hv']
  exact hsame (key, text)

theorem text?_str (hpy : py.Lawful) (s : String) : py.text? (.str s) = some s := by
  rw [Interpreter.text?, hpy.str_str]
  exact fun heq => nomatch heq

/-- An absent text is not written, and one that is there as it is. -/
theorem text?_ofText (hpy : py.Lawful) (o : Option String) : py.text? (ofText o) = o := by
  cases o with
  | none => rfl
  | some s => exact text?_str hpy s

/-! ### Values -/

/-- Only a text can bring a line break into a value. -/
theorem newline_not_mem_valueText (hpy : py.Lawful) {v : Json ν} {text : String}
    (h : py.valueText? v = some text) :
    '\n' ∉ text.toList ↔ ∀ s, v = .str s → '\n' ∉ s.toList := by
  cases v with
  | null => cases h
  | bool b =>
      obtain rfl : py.str (.num (py.ofInt (if b then 1 else 0))) = text := Option.some.inj h
      have hline := hpy.str_line (.num (py.ofInt (if b then 1 else 0))) fun s heq => nomatch heq
      exact iff_of_true hline fun s heq => nomatch heq
  | str s =>
      obtain rfl : py.str (.str s) = text := Option.some.inj h
      rw [hpy.str_str]
      constructor
      · intro hline t heq
        rwa [← Json.str.inj heq]
      · intro hline
        exact hline s rfl
  | num n =>
      obtain rfl : py.str (.num n) = text := Option.some.inj h
      exact iff_of_true (hpy.str_line _ fun s heq => nomatch heq) fun s heq => nomatch heq
  | arr items =>
      obtain rfl : py.str (.arr items) = text := Option.some.inj h
      exact iff_of_true (hpy.str_line _ fun s heq => nomatch heq) fun s heq => nomatch heq
  | obj fields =>
      obtain rfl : py.str (.obj fields) = text := Option.some.inj h
      exact iff_of_true (hpy.str_line _ fun s heq => nomatch heq) fun s heq => nomatch heq

/-! ### Samples of one entity -/

/-- Keys under which labels can be written and told apart. -/
def GoodKeys (labels : List (String × Json ν)) : Prop :=
  (∀ key ∈ labels.map (·.1), IsName key) ∧ (labels.map (·.1)).Nodup

/-- A sample of one of some metrics, whose labels hold given ones. -/
def Call.Samples (metrics : List (String × String)) (base : List (String × Json ν)) :
    Call ν → Prop
  | .metric _ _ _ => False
  | .sample name labels _ =>
      name ∈ metrics.map (metricName ·.1) ∧ GoodKeys labels ∧ ∀ label ∈ base, label ∈ labels

/-- `sampleAll` writes samples of its metrics under the labels it is given. -/
theorem samples_sampleAll {metrics : List (String × String)} {base labels : List (String × Json ν)}
    {values : List (String × Json ν)}
    (hvalues : ∀ name ∈ values.map (·.1), name ∈ metrics.map (·.1))
    (hkeys : GoodKeys labels) (hbase : ∀ label ∈ base, label ∈ labels) :
    ∀ call ∈ sampleAll labels values, call.Samples metrics base := by
  intro call hcall
  obtain ⟨v, hv, rfl⟩ := List.mem_map.mp hcall
  obtain ⟨m, hm, hname⟩ := List.mem_map.mp (hvalues v.1 (List.mem_map_of_mem hv))
  refine ⟨List.mem_map.mpr ⟨m, hm, ?_⟩, hkeys, hbase⟩
  rw [hname]

/-- What is written of samples: their names, and what their labels say. -/
theorem written_of_samples {metrics : List (String × String)} {base : List (String × Json ν)}
    {calls : List (Call ν)} (hcalls : ∀ call ∈ calls, call.Samples metrics base) {s : Sample}
    (hs : s ∈ calls.filterMap (Call.written? py)) :
    s.name ∈ metrics.map (metricName ·.1) ∧ ∃ labels, s.labels = writtenLabels py labels ∧
      (labels.map (·.1)).Nodup ∧ ∀ label ∈ base, label ∈ labels := by
  obtain ⟨call, hcall, hwritten⟩ := List.mem_filterMap.mp hs
  have hsamples := hcalls call hcall
  cases call with
  | metric name help kind => cases hwritten
  | sample name labels value =>
      obtain ⟨v, -, rfl⟩ := Option.map_eq_some_iff.mp hwritten
      exact ⟨hsamples.1, labels, rfl, hsamples.2.1.2, hsamples.2.2⟩

/-- Samples of one series agree on the labels that their entities have. -/
theorem base_eq_of_same {metrics metrics' : List (String × String)}
    {base base' : List (String × Json ν)} {calls calls' : List (Call ν)}
    (hcalls : ∀ call ∈ calls, call.Samples metrics base)
    (hcalls' : ∀ call ∈ calls', call.Samples metrics' base') {s t : Sample}
    (hs : s ∈ calls.filterMap (Call.written? py)) (ht : t ∈ calls'.filterMap (Call.written? py))
    (hsame : SameSeries s t) {key : String} {v v' : Json ν} (hv : (key, v) ∈ base)
    (hv' : (key, v') ∈ base') : py.text? v = py.text? v' := by
  obtain ⟨-, labels, heq, hkeys, hbase⟩ := written_of_samples hcalls hs
  obtain ⟨-, labels', heq', hkeys', hbase'⟩ := written_of_samples hcalls' ht
  refine text_eq_of_same hkeys hkeys' ?_ (hbase _ hv) (hbase' _ hv')
  intro label
  rw [← heq, ← heq']
  exact hsame.2 label

/-- Two samples of numbers under one name and the same labels are of one series. -/
theorem same_of_labels {name : String} {labels labels' : List (String × Json ν)} {n m : ν}
    {calls calls' : List (Call ν)} (h : .sample name labels (.num n) ∈ calls)
    (h' : .sample name labels' (.num m) ∈ calls')
    (hlabels : writtenLabels py labels = writtenLabels py labels') :
    ∃ s ∈ calls.filterMap (Call.written? py), ∃ t ∈ calls'.filterMap (Call.written? py),
      SameSeries s t := by
  refine ⟨⟨name, writtenLabels py labels, py.str (.num n)⟩, List.mem_filterMap.mpr ⟨_, h, rfl⟩,
    ⟨name, writtenLabels py labels', py.str (.num m)⟩, List.mem_filterMap.mpr ⟨_, h', rfl⟩,
    rfl, fun label => ?_⟩
  rw [hlabels]

/-- Samples under different names are distinct. -/
theorem distinct_of_sampleNames {calls : List (Call ν)} (h : (sampleNames calls).Nodup) :
    Distinct (calls.filterMap (Call.written? py)) := by
  apply distinct_of_names
  refine List.Sublist.nodup ?_ h
  induction calls with
  | nil => exact List.Sublist.slnil
  | cons call calls ih =>
      cases call with
      | metric name help kind => exact ih h
      | sample name labels value =>
          have hrest := ih (List.nodup_cons.mp h).2
          cases hwritten : (Call.sample name labels value).written? py with
          | none =>
              rw [List.filterMap_cons_none hwritten]
              exact hrest.cons _
          | some s =>
              obtain ⟨v, -, rfl⟩ := Option.map_eq_some_iff.mp hwritten
              rw [List.filterMap_cons_some hwritten]
              exact hrest.cons_cons _

/-- The names of two runs of calls follow each other. -/
theorem sampleNames_append (calls calls' : List (Call ν)) :
    sampleNames (calls ++ calls') = sampleNames calls ++ sampleNames calls' :=
  List.filterMap_append

/-- `sampleAll` uses each of its names once. -/
theorem sampleNames_sampleAll (labels values : List (String × Json ν)) :
    sampleNames (sampleAll labels values) = values.map (metricName ·.1) := by
  rw [sampleNames, sampleAll, List.filterMap_map, ← List.filterMap_eq_map]
  rfl

/-! ## Servers -/

variable {fleet : Fleet ν} {now : Int}

/-- What is written for a server are samples of the metrics of servers, under its labels. -/
theorem samples_serverCalls (s : Server) :
    ∀ call ∈ fleet.serverCalls py now s, call.Samples serverMetrics (fleet.serverLabels s) := by
  have hkeys : GoodKeys (fleet.serverLabels s) := by
    constructor
    · show ∀ key ∈ ["server", "zone"], IsName key
      decide
    · show ["server", "zone"].Nodup
      decide
  have hinfo : ∀ version enabled : Json ν, GoodKeys (fleet.serverLabels s ++
      [("version", version), ("enabled", enabled)]) := by
    intro version enabled
    constructor
    · show ∀ key ∈ ["server", "zone", "version", "enabled"], IsName key
      decide
    · show ["server", "zone", "version", "enabled"].Nodup
      decide
  have hself : ∀ label ∈ fleet.serverLabels s, label ∈ fleet.serverLabels s := fun _ h => h
  have hmore : ∀ extra, ∀ label ∈ fleet.serverLabels s, label ∈ fleet.serverLabels s ++ extra :=
    fun _ _ h => List.mem_append_left _ h
  intro call hcall
  rw [Fleet.serverCalls, List.mem_append, List.mem_append] at hcall
  rcases hcall with (hcall | hcall) | hcall
  · refine samples_sampleAll ?_ hkeys hself call hcall
    show ∀ name ∈ ["server_up", "server_in_sync", "server_update_available"],
      name ∈ serverMetrics.map (·.1)
    decide
  · refine samples_sampleAll ?_ (hinfo _ _) (hmore _) call hcall
    show ∀ name ∈ ["server_info"], name ∈ serverMetrics.map (·.1)
    decide
  · split at hcall
    · cases hcall
    · refine samples_sampleAll ?_ hkeys hself call hcall
      show ∀ name ∈ ["server_queries_per_second", "server_blocked_per_second",
        "server_queries_window", "server_blocked_window", "server_processing_milliseconds",
        "server_sample_age_seconds"], name ∈ serverMetrics.map (·.1)
      decide

/-- A server has each metric once. -/
theorem distinct_serverCalls (s : Server) :
    Distinct ((fleet.serverCalls py now s).filterMap (Call.written? py)) := by
  apply distinct_of_sampleNames
  rw [Fleet.serverCalls]
  simp only [sampleNames_append, sampleNames_sampleAll]
  cases fleet.fresh .server now s.id with
  | none =>
      show (["server_up", "server_in_sync", "server_update_available", "server_info"].map
        metricName).Nodup
      decide
  | some row =>
      simp only [sampleNames_sampleAll]
      show (["server_up", "server_in_sync", "server_update_available", "server_info",
        "server_queries_per_second", "server_blocked_per_second",
        "server_queries_window", "server_blocked_window", "server_processing_milliseconds",
        "server_sample_age_seconds"].map metricName).Nodup
      decide

/-- **Servers are told apart** by name and zone. -/
theorem same_servers_iff (hpy : py.Lawful) (s t : Server) :
    (∃ a ∈ (fleet.serverCalls py now s).filterMap (Call.written? py),
      ∃ b ∈ (fleet.serverCalls py now t).filterMap (Call.written? py), SameSeries a b) ↔
    s.name = t.name ∧ fleet.zone s.zoneId = fleet.zone t.zoneId := by
  constructor
  · rintro ⟨a, ha, b, hb, hsame⟩
    have hname : py.text? (.str s.name) = py.text? (.str t.name) :=
      base_eq_of_same (samples_serverCalls s) (samples_serverCalls t) ha hb hsame
        (show ("server", .str s.name) ∈ fleet.serverLabels s from List.mem_cons_self)
        (show ("server", .str t.name) ∈ fleet.serverLabels t from List.mem_cons_self)
    have hzone : py.text? (ofText (fleet.zone s.zoneId)) =
        py.text? (ofText (fleet.zone t.zoneId)) :=
      base_eq_of_same (samples_serverCalls s) (samples_serverCalls t) ha hb hsame
        (show ("zone", _) ∈ fleet.serverLabels s from List.mem_cons_of_mem _ List.mem_cons_self)
        (show ("zone", _) ∈ fleet.serverLabels t from List.mem_cons_of_mem _ List.mem_cons_self)
    rw [text?_str hpy, text?_str hpy] at hname
    rw [text?_ofText hpy, text?_ofText hpy] at hzone
    exact ⟨Option.some.inj hname, hzone⟩
  · rintro ⟨hname, hzone⟩
    have hlabels : fleet.serverLabels s = fleet.serverLabels t := by
      rw [Fleet.serverLabels, Fleet.serverLabels, hname, hzone]
    have hup : ∀ u, ∃ n, .sample (metricName "server_up") (fleet.serverLabels u) (.num n) ∈
        fleet.serverCalls py now u :=
      fun u => ⟨_, List.mem_append_left _ (List.mem_append_left _ List.mem_cons_self)⟩
    obtain ⟨n, hs⟩ := hup s
    obtain ⟨m, ht⟩ := hup t
    exact same_of_labels hs ht (by rw [hlabels])

/-! ## Host agents -/

/-- What is written for an agent are samples of the metrics of hosts, under its labels. -/
theorem samples_agentCalls (a : Agent) :
    ∀ call ∈ fleet.agentCalls py now a, call.Samples agentMetrics (fleet.agentLabels a) := by
  have hkeys : GoodKeys (fleet.agentLabels a) := by
    constructor
    · show ∀ key ∈ ["host", "zone"], IsName key
      decide
    · show ["host", "zone"].Nodup
      decide
  have hinfo : ∀ version arch os : Json ν, GoodKeys (fleet.agentLabels a ++
      [("version", version), ("arch", arch), ("os", os)]) := by
    intro version arch os
    constructor
    · show ∀ key ∈ ["host", "zone", "version", "arch", "os"], IsName key
      decide
    · show ["host", "zone", "version", "arch", "os"].Nodup
      decide
  have hself : ∀ label ∈ fleet.agentLabels a, label ∈ fleet.agentLabels a := fun _ h => h
  have hmore : ∀ extra, ∀ label ∈ fleet.agentLabels a, label ∈ fleet.agentLabels a ++ extra :=
    fun _ _ h => List.mem_append_left _ h
  intro call hcall
  rw [Fleet.agentCalls, List.mem_append, List.mem_append, List.mem_append] at hcall
  rcases hcall with ((hcall | hcall) | hcall) | hcall
  · refine samples_sampleAll ?_ hkeys hself call hcall
    show ∀ name ∈ ["agent_up"], name ∈ agentMetrics.map (·.1)
    decide
  · refine samples_sampleAll ?_ (hinfo _ _ _) (hmore _) call hcall
    show ∀ name ∈ ["agent_info"], name ∈ agentMetrics.map (·.1)
    decide
  · split at hcall
    · cases hcall
    · refine samples_sampleAll ?_ hkeys hself call hcall
      show ∀ name ∈ ["agent_cert_expiry_timestamp_seconds"], name ∈ agentMetrics.map (·.1)
      decide
  · split at hcall
    · cases hcall
    · refine samples_sampleAll ?_ hkeys hself call hcall
      show ∀ name ∈ ["agent_load1", "agent_memory_used_ratio", "agent_disk_used_ratio",
        "agent_services_down"], name ∈ agentMetrics.map (·.1)
      decide

/-- An agent has each metric once. -/
theorem distinct_agentCalls (a : Agent) :
    Distinct ((fleet.agentCalls py now a).filterMap (Call.written? py)) := by
  apply distinct_of_sampleNames
  rw [Fleet.agentCalls]
  simp only [sampleNames_append, sampleNames_sampleAll]
  -- with everything there is, and what is left out leaves the rest
  have hall : (["agent_up", "agent_info", "agent_cert_expiry_timestamp_seconds", "agent_load1",
      "agent_memory_used_ratio", "agent_disk_used_ratio", "agent_services_down"].map
        metricName).Nodup := by decide
  cases a.certNotAfter with
  | none =>
      cases fleet.fresh .agent now a.id with
      | none =>
          show (["agent_up", "agent_info"].map metricName).Nodup
          decide
      | some row =>
          simp only [sampleNames_sampleAll]
          show (["agent_up", "agent_info", "agent_load1", "agent_memory_used_ratio",
            "agent_disk_used_ratio", "agent_services_down"].map metricName).Nodup
          decide
  | some expiry =>
      cases fleet.fresh .agent now a.id with
      | none =>
          simp only [sampleNames_sampleAll]
          show (["agent_up", "agent_info", "agent_cert_expiry_timestamp_seconds"].map
            metricName).Nodup
          decide
      | some row =>
          simp only [sampleNames_sampleAll]
          exact hall

/-- **Hosts are told apart** by name and zone. -/
theorem same_agents_iff (hpy : py.Lawful) (a b : Agent) :
    (∃ s ∈ (fleet.agentCalls py now a).filterMap (Call.written? py),
      ∃ t ∈ (fleet.agentCalls py now b).filterMap (Call.written? py), SameSeries s t) ↔
    a.name = b.name ∧ fleet.zone a.zoneId = fleet.zone b.zoneId := by
  constructor
  · rintro ⟨s, hs, t, ht, hsame⟩
    have hname : py.text? (.str a.name) = py.text? (.str b.name) :=
      base_eq_of_same (samples_agentCalls a) (samples_agentCalls b) hs ht hsame
        (show ("host", .str a.name) ∈ fleet.agentLabels a from List.mem_cons_self)
        (show ("host", .str b.name) ∈ fleet.agentLabels b from List.mem_cons_self)
    have hzone : py.text? (ofText (fleet.zone a.zoneId)) =
        py.text? (ofText (fleet.zone b.zoneId)) :=
      base_eq_of_same (samples_agentCalls a) (samples_agentCalls b) hs ht hsame
        (show ("zone", _) ∈ fleet.agentLabels a from List.mem_cons_of_mem _ List.mem_cons_self)
        (show ("zone", _) ∈ fleet.agentLabels b from List.mem_cons_of_mem _ List.mem_cons_self)
    rw [text?_str hpy, text?_str hpy] at hname
    rw [text?_ofText hpy, text?_ofText hpy] at hzone
    exact ⟨Option.some.inj hname, hzone⟩
  · rintro ⟨hname, hzone⟩
    have hlabels : fleet.agentLabels a = fleet.agentLabels b := by
      rw [Fleet.agentLabels, Fleet.agentLabels, hname, hzone]
    have hup : ∀ c, ∃ n, .sample (metricName "agent_up") (fleet.agentLabels c) (.num n) ∈
        fleet.agentCalls py now c :=
      fun c => ⟨_, List.mem_append_left _ (List.mem_append_left _ (List.mem_append_left _
        List.mem_cons_self))⟩
    obtain ⟨n, hs⟩ := hup a
    obtain ⟨m, ht⟩ := hup b
    exact same_of_labels hs ht (by rw [hlabels])

/-! ## Balancers -/

/-- The metrics of a balancer by itself, and those of its backends. -/
def ownMetrics : List (String × String) := balancerMetrics.take 8

def backendMetrics : List (String × String) := balancerMetrics.drop 8

/-- The labels of a balancer have different names. -/
theorem goodKeys_balancerLabels (lb : LoadBalancer ν) : GoodKeys (fleet.balancerLabels lb) := by
  constructor
  · show ∀ key ∈ ["balancer", "zone", "mode", "host"], IsName key
    decide
  · show ["balancer", "zone", "mode", "host"].Nodup
    decide

/-- What a balancer has of its own is written under its labels. -/
theorem samples_ownCalls (lb : LoadBalancer ν) :
    ∀ call ∈ fleet.ownCalls py now lb, call.Samples ownMetrics (fleet.balancerLabels lb) := by
  have hkeys : GoodKeys (fleet.balancerLabels lb) := goodKeys_balancerLabels lb
  have hself : ∀ label ∈ fleet.balancerLabels lb, label ∈ fleet.balancerLabels lb := fun _ h => h
  intro call hcall
  rw [Fleet.ownCalls, List.mem_append] at hcall
  rcases hcall with hcall | hcall
  · refine samples_sampleAll ?_ hkeys hself call hcall
    show ∀ name ∈ ["balancer_up", "balancer_in_sync"], name ∈ ownMetrics.map (·.1)
    decide
  · split at hcall
    · cases hcall
    · refine samples_sampleAll ?_ hkeys hself call hcall
      show ∀ name ∈ ["balancer_vip_owner", "balancer_director", "balancer_backends_up",
        "balancer_backends_total", "balancer_queries_per_second", "balancer_cache_hit_ratio"],
        name ∈ ownMetrics.map (·.1)
      decide

/-- A balancer has each metric of its own once. -/
theorem distinct_ownCalls (lb : LoadBalancer ν) :
    Distinct ((fleet.ownCalls py now lb).filterMap (Call.written? py)) := by
  apply distinct_of_sampleNames
  rw [Fleet.ownCalls]
  simp only [sampleNames_append, sampleNames_sampleAll]
  cases fleet.fresh .loadBalancer now lb.id with
  | none =>
      show (["balancer_up", "balancer_in_sync"].map metricName).Nodup
      decide
  | some row =>
      simp only [sampleNames_sampleAll]
      show (["balancer_up", "balancer_in_sync", "balancer_vip_owner", "balancer_director",
        "balancer_backends_up", "balancer_backends_total", "balancer_queries_per_second",
        "balancer_cache_hit_ratio"].map metricName).Nodup
      decide

/-! ### Backends -/

/-- The labels of a backend, the balancer's and its name. -/
def Fleet.backendLabels (fleet : Fleet ν) (lb : LoadBalancer ν) (b : List (String × Json ν)) :
    List (String × Json ν) :=
  fleet.balancerLabels lb ++ [("backend", Json.get b "name")]

/-- What is written for a backend carries the labels of the balancer and its name. -/
theorem samples_backendCalls (lb : LoadBalancer ν) (key : String) (b : List (String × Json ν)) :
    ∀ call ∈ backendCalls py (fleet.balancerLabels lb) key b,
      call.Samples backendMetrics (fleet.backendLabels lb b) := by
  have hkeys : GoodKeys (fleet.backendLabels lb b) := by
    constructor
    · show ∀ key ∈ ["balancer", "zone", "mode", "host", "backend"], IsName key
      decide
    · show ["balancer", "zone", "mode", "host", "backend"].Nodup
      decide
  refine samples_sampleAll ?_ hkeys fun _ h => h
  show ∀ name ∈ ["balancer_backend_up", "balancer_backend_queries_per_second"],
    name ∈ backendMetrics.map (·.1)
  decide

/-- Labels that print alike are written alike. -/
theorem writtenLabels_append_congr {labels : List (String × Json ν)} {key : String}
    {v v' : Json ν} (h : py.text? v = py.text? v') :
    writtenLabels py (labels ++ [(key, v)]) = writtenLabels py (labels ++ [(key, v')]) := by
  rw [writtenLabels, writtenLabels, List.filterMap_append, List.filterMap_append]
  congr 1
  rw [List.filterMap_cons, List.filterMap_cons, h]

/-- Backends of one balancer are told apart by the text of their names. -/
theorem same_backends_iff (lb : LoadBalancer ν) (key : String) (b c : List (String × Json ν)) :
    (∃ s ∈ (backendCalls py (fleet.balancerLabels lb) key b).filterMap (Call.written? py),
      ∃ t ∈ (backendCalls py (fleet.balancerLabels lb) key c).filterMap (Call.written? py),
        SameSeries s t) ↔
    py.text? (Json.get b "name") = py.text? (Json.get c "name") := by
  constructor
  · rintro ⟨s, hs, t, ht, hsame⟩
    exact base_eq_of_same (samples_backendCalls lb key b) (samples_backendCalls lb key c) hs ht
      hsame
      (show ("backend", _) ∈ fleet.backendLabels lb b from
        List.mem_append_right _ List.mem_cons_self)
      (show ("backend", _) ∈ fleet.backendLabels lb c from
        List.mem_append_right _ List.mem_cons_self)
  · intro hname
    have hup : ∀ d, ∃ n, .sample (metricName "balancer_backend_up") (fleet.backendLabels lb d)
        (.num n) ∈ backendCalls py (fleet.balancerLabels lb) key d :=
      fun d => ⟨_, List.mem_cons_self⟩
    obtain ⟨n, hs⟩ := hup b
    obtain ⟨m, ht⟩ := hup c
    exact same_of_labels hs ht (writtenLabels_append_congr hname)

/-- The calls for a balancer with the backends that it reports. -/
def Fleet.reportCalls (fleet : Fleet ν) (py : Interpreter ν) (now : Int) (lb : LoadBalancer ν)
    (bs : List (List (String × Json ν))) : List (Call ν) :=
  fleet.ownCalls py now lb ++
    bs.flatMap (backendCalls py (fleet.balancerLabels lb) (qpsKey lb.mode))

/-- **Backends are told apart** by the names under which they are reported. -/
theorem distinct_reportCalls_iff (lb : LoadBalancer ν) (bs : List (List (String × Json ν))) :
    Distinct ((fleet.reportCalls py now lb bs).filterMap (Call.written? py)) ↔
      (bs.map fun b => py.text? (Json.get b "name")).Nodup := by
  have hnames : ∀ s ∈ (fleet.ownCalls py now lb).filterMap (Call.written? py),
      ∀ t ∈ bs.flatMap (fun b => (backendCalls py (fleet.balancerLabels lb)
        (qpsKey lb.mode) b).filterMap (Call.written? py)), s.name ≠ t.name := by
    intro s hs t ht
    obtain ⟨b, -, ht⟩ := List.mem_flatMap.mp ht
    have hown := (written_of_samples (samples_ownCalls lb) hs).1
    have hbackend := (written_of_samples (samples_backendCalls lb _ b) ht).1
    have hapart : ∀ own ∈ ownMetrics.map (metricName ·.1),
        ∀ backend ∈ backendMetrics.map (metricName ·.1), own ≠ backend := by decide
    exact hapart _ hown _ hbackend
  have heach : ∀ b, Distinct ((backendCalls py (fleet.balancerLabels lb)
      (qpsKey lb.mode) b).filterMap (Call.written? py)) := by
    intro b
    apply distinct_of_sampleNames
    rw [backendCalls, sampleNames_sampleAll]
    show (["balancer_backend_up", "balancer_backend_queries_per_second"].map metricName).Nodup
    decide
  rw [Fleet.reportCalls, List.filterMap_append, List.filterMap_flatMap, distinct_append hnames,
    distinct_flatMap fun b _ c _ => same_backends_iff lb (qpsKey lb.mode) b c, List.Nodup,
    List.pairwise_map]
  constructor
  · rintro ⟨-, -, hpairs⟩
    exact hpairs
  · intro hpairs
    exact ⟨distinct_ownCalls lb, fun b _ => heach b, hpairs⟩

/-- All of a balancer's samples, those of its backends too, are under its labels. -/
theorem samples_reportCalls (lb : LoadBalancer ν) (bs : List (List (String × Json ν))) :
    ∀ call ∈ fleet.reportCalls py now lb bs,
      call.Samples balancerMetrics (fleet.balancerLabels lb) := by
  intro call hcall
  have hwider : ∀ {metrics base}, call.Samples metrics base →
      (∀ name ∈ metrics.map (metricName ·.1), name ∈ balancerMetrics.map (metricName ·.1)) →
      (∀ label ∈ fleet.balancerLabels lb, label ∈ base) →
      call.Samples balancerMetrics (fleet.balancerLabels lb) := by
    intro metrics base h hmetrics hbase
    cases call with
    | metric name help kind => exact h
    | sample name labels value =>
        exact ⟨hmetrics name h.1, h.2.1, fun label hlabel => h.2.2 label (hbase label hlabel)⟩
  rcases List.mem_append.mp hcall with hcall | hcall
  · exact hwider (samples_ownCalls lb call hcall) (by decide) fun _ h => h
  · obtain ⟨b, -, hcall⟩ := List.mem_flatMap.mp hcall
    exact hwider (samples_backendCalls lb _ b call hcall) (by decide)
      fun _ h => List.mem_append_left _ h

/-- What tells balancers apart. -/
def Fleet.SameBalancer (fleet : Fleet ν) (lb lb' : LoadBalancer ν) : Prop :=
  lb.name = lb'.name ∧ fleet.zone lb.zoneId = fleet.zone lb'.zoneId ∧ lb.mode = lb'.mode ∧
    (fleet.agent lb.agentId).map (·.name) = (fleet.agent lb'.agentId).map (·.name)

/-- Balancers are told apart by name, zone, mode and host. -/
theorem same_balancers_iff (hpy : py.Lawful) (lb lb' : LoadBalancer ν)
    (bs bs' : List (List (String × Json ν))) :
    (∃ s ∈ (fleet.reportCalls py now lb bs).filterMap (Call.written? py),
      ∃ t ∈ (fleet.reportCalls py now lb' bs').filterMap (Call.written? py), SameSeries s t) ↔
    fleet.SameBalancer lb lb' := by
  constructor
  · rintro ⟨s, hs, t, ht, hsame⟩
    have hat : ∀ (key : String) {v v' : Json ν}, (key, v) ∈ fleet.balancerLabels lb →
        (key, v') ∈ fleet.balancerLabels lb' → py.text? v = py.text? v' :=
      fun key _ _ => base_eq_of_same (samples_reportCalls lb bs) (samples_reportCalls lb' bs') hs ht
        hsame
    have hname : py.text? (.str lb.name) = py.text? (.str lb'.name) :=
      hat "balancer" (by simp [Fleet.balancerLabels]) (by simp [Fleet.balancerLabels])
    have hzone : py.text? (ofText (fleet.zone lb.zoneId)) =
        py.text? (ofText (fleet.zone lb'.zoneId)) :=
      hat "zone" (by simp [Fleet.balancerLabels]) (by simp [Fleet.balancerLabels])
    have hmode : py.text? (.str lb.mode.value) = py.text? (.str lb'.mode.value) :=
      hat "mode" (by simp [Fleet.balancerLabels]) (by simp [Fleet.balancerLabels])
    have hhost : py.text? (ofText ((fleet.agent lb.agentId).map (·.name))) =
        py.text? (ofText ((fleet.agent lb'.agentId).map (·.name))) :=
      hat "host" (by simp [Fleet.balancerLabels]) (by simp [Fleet.balancerLabels])
    rw [text?_str hpy, text?_str hpy] at hname hmode
    rw [text?_ofText hpy, text?_ofText hpy] at hzone hhost
    have hvalue : ∀ m m' : LbMode, m.value = m'.value → m = m' := by
      intro m m' heq
      cases m <;> cases m' <;> first | rfl | exact absurd heq (by decide)
    exact ⟨Option.some.inj hname, hzone, hvalue _ _ (Option.some.inj hmode), hhost⟩
  · rintro ⟨hname, hzone, hmode, hhost⟩
    have hlabels : fleet.balancerLabels lb = fleet.balancerLabels lb' := by
      rw [Fleet.balancerLabels, Fleet.balancerLabels, hname, hzone, hmode, hhost]
    have hup : ∀ l bs, ∃ n, .sample (metricName "balancer_up") (fleet.balancerLabels l) (.num n) ∈
        fleet.reportCalls py now l bs :=
      fun l bs => ⟨_, List.mem_append_left _ (List.mem_append_left _ List.mem_cons_self)⟩
    obtain ⟨n, hs⟩ := hup lb bs
    obtain ⟨m, ht⟩ := hup lb' bs'
    exact same_of_labels hs ht (by rw [hlabels])

/-! ## Totals -/

/-- The totals are samples of the metrics of the fleet. -/
theorem samples_totalCalls (lastSync : Option Int) :
    ∀ call ∈ fleet.totalCalls py lastSync, call.Samples fleetMetrics [] := by
  have hkeys : GoodKeys ([] : List (String × Json ν)) :=
    ⟨fun _ h => (nomatch h), List.nodup_nil⟩
  intro call hcall
  unfold Fleet.totalCalls at hcall
  rw [List.mem_append] at hcall
  rcases hcall with hcall | hcall
  · refine samples_sampleAll ?_ hkeys (fun _ h => h) call hcall
    show ∀ name ∈ ["fleet_servers", "fleet_servers_online", "fleet_agents_online"],
      name ∈ fleetMetrics.map (·.1)
    decide
  · split at hcall
    · cases hcall
    · refine samples_sampleAll ?_ hkeys (fun _ h => h) call hcall
      show ∀ name ∈ ["fleet_last_sync_timestamp_seconds"], name ∈ fleetMetrics.map (·.1)
      decide

/-- Each total is there once. -/
theorem distinct_totalCalls (lastSync : Option Int) :
    Distinct ((fleet.totalCalls py lastSync).filterMap (Call.written? py)) := by
  apply distinct_of_sampleNames
  unfold Fleet.totalCalls
  simp only [sampleNames_append, sampleNames_sampleAll]
  cases lastSync with
  | none =>
      show (["fleet_servers", "fleet_servers_online", "fleet_agents_online"].map metricName).Nodup
      decide
  | some last =>
      simp only [sampleNames_sampleAll]
      show (["fleet_servers", "fleet_servers_online", "fleet_agents_online",
        "fleet_last_sync_timestamp_seconds"].map metricName).Nodup
      decide

/-! ## Values on one line -/

/-- The value of a call is no text with a newline in it. -/
def Call.OneLine : Call ν → Prop
  | .metric _ _ _ => True
  | .sample _ _ value => ∀ s, value = .str s → '\n' ∉ s.toList

/-- The values written are on one line exactly when no text among them has a line break. -/
theorem values_iff (hpy : py.Lawful) (calls : List (Call ν)) :
    (∀ s ∈ calls.filterMap (Call.written? py), '\n' ∉ s.value.toList) ↔
      ∀ call ∈ calls, call.OneLine := by
  constructor
  · intro h call hcall
    cases call with
    | metric name help kind => exact trivial
    | sample name labels value =>
        intro s hvalue
        have htext : py.valueText? value = some (py.str value) := by
          rw [hvalue]
          rfl
        have hline := h _ (List.mem_filterMap.mpr ⟨_, hcall, congrArg (Option.map _) htext⟩)
        exact (newline_not_mem_valueText hpy htext).mp hline s hvalue
  · intro h s hs
    obtain ⟨call, hcall, hwritten⟩ := List.mem_filterMap.mp hs
    have hline := h call hcall
    cases call with
    | metric name help kind => cases hwritten
    | sample name labels value =>
        obtain ⟨v, hv, rfl⟩ := Option.map_eq_some_iff.mp hwritten
        exact (newline_not_mem_valueText hpy hv).mpr hline

/-- Values that are no texts are on one line. -/
theorem oneLine_sampleAll {labels values : List (String × Json ν)}
    (h : ∀ v ∈ values, ∀ s, v.2 ≠ .str s) : ∀ call ∈ sampleAll labels values, call.OneLine := by
  intro call hcall
  obtain ⟨v, hv, rfl⟩ := List.mem_map.mp hcall
  exact fun s heq => absurd heq (h v hv s)

@[simp] theorem flag_ne_str (p : Prop) [Decidable p] (s : String) : py.flag p ≠ .str s :=
  fun heq => nomatch heq

@[simp] theorem get_ne_str (row : MetricSample ν) (key s : String) : row.get key ≠ .str s := by
  unfold MetricSample.get
  cases row.values key <;> exact fun heq => nomatch heq

/-- The state of a director is a number or absent. -/
@[simp] theorem director_ne_str (lb : LoadBalancer ν) (row : MetricSample ν) (s : String) :
    py.director lb row ≠ .str s := by
  unfold Interpreter.director
  split
  · exact fun heq => nomatch heq
  · split <;> exact fun heq => nomatch heq

/-- The values of a server are on one line. -/
theorem oneLine_serverCalls (s : Server) : ∀ call ∈ fleet.serverCalls py now s, call.OneLine := by
  rw [Fleet.serverCalls]
  simp only [List.forall_mem_append]
  refine ⟨⟨oneLine_sampleAll (by simp), oneLine_sampleAll (by simp)⟩, ?_⟩
  cases fleet.fresh .server now s.id with
  | none => exact fun _ h => nomatch h
  | some row => exact oneLine_sampleAll (by simp)

/-- The values of an agent are on one line. -/
theorem oneLine_agentCalls (a : Agent) : ∀ call ∈ fleet.agentCalls py now a, call.OneLine := by
  rw [Fleet.agentCalls]
  simp only [List.forall_mem_append]
  refine ⟨⟨⟨oneLine_sampleAll (by simp), oneLine_sampleAll (by simp)⟩, ?_⟩, ?_⟩
  · cases a.certNotAfter with
    | none => exact fun _ h => nomatch h
    | some expiry => exact oneLine_sampleAll (by simp)
  · cases fleet.fresh .agent now a.id with
    | none => exact fun _ h => nomatch h
    | some row => exact oneLine_sampleAll (by simp)

/-- What a balancer has of its own is on one line. -/
theorem oneLine_ownCalls (lb : LoadBalancer ν) :
    ∀ call ∈ fleet.ownCalls py now lb, call.OneLine := by
  rw [Fleet.ownCalls]
  simp only [List.forall_mem_append]
  refine ⟨oneLine_sampleAll (by simp), ?_⟩
  cases fleet.fresh .loadBalancer now lb.id with
  | none => exact fun _ h => nomatch h
  | some row => exact oneLine_sampleAll (by simp)

/-- The totals are on one line. -/
theorem oneLine_totalCalls (lastSync : Option Int) :
    ∀ call ∈ fleet.totalCalls py lastSync, call.OneLine := by
  unfold Fleet.totalCalls
  simp only [List.forall_mem_append]
  refine ⟨oneLine_sampleAll (by simp), ?_⟩
  cases lastSync with
  | none => exact fun _ h => nomatch h
  | some last => exact oneLine_sampleAll (by simp)

/-- Only the rate of a backend is printed as it is reported. -/
theorem oneLine_backendCalls_iff (labels : List (String × Json ν)) (key : String)
    (b : List (String × Json ν)) :
    (∀ call ∈ backendCalls py labels key b, call.OneLine) ↔
      ∀ s, Json.get b key = .str s → '\n' ∉ s.toList := by
  simp [backendCalls, sampleAll, Call.OneLine]

/-! ## The whole page -/

/-- The names tell the samples of a fleet apart, and the reported backends can be gone through and
printed. -/
structure Distinguishable (py : Interpreter ν) (fleet : Fleet ν) : Prop where
  servers : fleet.servers.Pairwise fun s t =>
    ¬ (s.name = t.name ∧ fleet.zone s.zoneId = fleet.zone t.zoneId)
  agents : fleet.agents.Pairwise fun a b =>
    ¬ (a.name = b.name ∧ fleet.zone a.zoneId = fleet.zone b.zoneId)
  balancers : fleet.loadBalancers.Pairwise fun lb lb' => ¬ fleet.SameBalancer lb lb'
  reports : ∀ lb ∈ fleet.loadBalancers, ∃ bs, py.backends lb = some bs ∧
    (bs.map fun b => py.text? (Json.get b "name")).Nodup ∧
      ∀ b ∈ bs, ∀ s, Json.get b (qpsKey lb.mode) = .str s → '\n' ∉ s.toList

variable {lastSync : Option Int}

/-- What a balancer reports, if it can be gone through. -/
def Interpreter.reported (py : Interpreter ν) (lb : LoadBalancer ν) :
    List (List (String × Json ν)) := (py.backends lb).getD []

def Fleet.allCalls (fleet : Fleet ν) (py : Interpreter ν) (now : Int) (lastSync : Option Int) :
    List (Call ν) :=
  describe serverMetrics ++ fleet.servers.flatMap (fleet.serverCalls py now) ++
    describe agentMetrics ++ fleet.agents.flatMap (fleet.agentCalls py now) ++
    describe balancerMetrics ++
    fleet.loadBalancers.flatMap (fun lb => fleet.reportCalls py now lb (py.reported lb)) ++
    describe fleetMetrics ++ fleet.totalCalls py lastSync

/-- The calls for a balancer whose report has a list of backends. -/
theorem balancerCalls_eq {lb : LoadBalancer ν} {bs : List (List (String × Json ν))}
    (h : py.backends lb = some bs) :
    fleet.balancerCalls py now lb = some (fleet.reportCalls py now lb bs) := by
  rw [Fleet.balancerCalls, h]
  rfl

/-- All of the page's calls, when each balancer's report has a list of backends. -/
theorem calls_eq (h : ∀ lb ∈ fleet.loadBalancers, ∃ bs, py.backends lb = some bs) :
    fleet.calls py now lastSync = some (fleet.allCalls py now lastSync) := by
  have hmap : ∀ lbs : List (LoadBalancer ν), (∀ lb ∈ lbs, ∃ bs, py.backends lb = some bs) →
      lbs.mapM (fleet.balancerCalls py now) =
        some (lbs.map fun lb => fleet.reportCalls py now lb (py.reported lb)) := by
    intro lbs hlbs
    induction lbs with
    | nil => rfl
    | cons lb lbs ih =>
        obtain ⟨⟨bs, hbs⟩, hrest⟩ := List.forall_mem_cons.mp hlbs
        rw [List.mapM_cons, balancerCalls_eq hbs, ih hrest, List.map_cons, Interpreter.reported,
          hbs]
        rfl
  rw [Fleet.calls, hmap fleet.loadBalancers h, Fleet.allCalls, List.flatMap_def]
  rfl

/-- A page that is written needs a list of backends from each balancer. -/
theorem reported_of_calls {calls : List (Call ν)} (h : fleet.calls py now lastSync = some calls) :
    ∀ lb ∈ fleet.loadBalancers, ∃ bs, py.backends lb = some bs := by
  obtain ⟨reports, hreports, -⟩ := Option.bind_eq_some_iff.mp h
  clear h
  generalize fleet.loadBalancers = lbs at hreports
  induction lbs generalizing reports with
  | nil => exact fun lb hlb => nomatch hlb
  | cons lb lbs ih =>
      rw [List.mapM_cons] at hreports
      obtain ⟨first, hfirst, hrest⟩ := Option.bind_eq_some_iff.mp hreports
      obtain ⟨others, hothers, -⟩ := Option.bind_eq_some_iff.mp hrest
      obtain ⟨bs, hbs, -⟩ := Option.bind_eq_some_iff.mp hfirst
      exact List.forall_mem_cons.mpr ⟨⟨bs, hbs⟩, ih others hothers⟩

/-- The prefix of this application keeps a name a name. -/
theorem isName_metricName {suffix : String} (h : IsName suffix) : IsName (metricName suffix) := by
  have hfront : IsName "adguard_admin_" := isName_ofList rfl
  refine ⟨fun hempty => hfront.1 (String.append_eq_empty_iff.mp hempty).1, fun c hc => ?_⟩
  rw [metricName, String.toList_append, List.mem_append] at hc
  exact hc.elim (hfront.2 c) (h.2 c)

/-- The names of all metrics are names, and their helps are on one line. -/
theorem isName_metrics : ∀ metrics ∈ [serverMetrics, agentMetrics, balancerMetrics, fleetMetrics],
    ∀ m ∈ metrics, IsName m.1 ∧ '\n' ∉ m.2.toList := by
  simp only [serverMetrics, agentMetrics, balancerMetrics, fleetMetrics, List.forall_mem_cons,
    List.not_mem_nil, false_imp_iff, implies_true, and_true, -String.reduceToList]
  repeat' with_reducible apply And.intro
  all_goals first | exact isName_ofList rfl | exact newline_not_mem_ofList rfl

/-- Headers name a metric of their table. -/
theorem named_describe {metrics : List (String × String)}
    (h : metrics ∈ [serverMetrics, agentMetrics, balancerMetrics, fleetMetrics]) :
    ∀ call ∈ (describe metrics : List (Call ν)), call.Named := by
  intro call hcall
  obtain ⟨m, hm, rfl⟩ := List.mem_map.mp hcall
  obtain ⟨hname, hhelp⟩ := isName_metrics metrics h m hm
  exact ⟨isName_metricName hname, hhelp, newline_not_mem_ofList rfl⟩

/-- Samples of a table's metrics are named by that table. -/
theorem named_of_samples {metrics : List (String × String)} {base : List (String × Json ν)}
    (h : metrics ∈ [serverMetrics, agentMetrics, balancerMetrics, fleetMetrics]) {call : Call ν}
    (hcall : call.Samples metrics base) : call.Named := by
  cases call with
  | metric name help kind => cases hcall
  | sample name labels value =>
      obtain ⟨hname, ⟨hkeys, -⟩, -⟩ := hcall
      obtain ⟨m, hm, rfl⟩ := List.mem_map.mp hname
      exact ⟨isName_metricName (isName_metrics metrics h m hm).1,
        fun label hlabel => hkeys label.1 (List.mem_map_of_mem hlabel)⟩

/-- Every call of the page has a proper name. -/
theorem named_allCalls : ∀ call ∈ fleet.allCalls py now lastSync, call.Named := by
  unfold Fleet.allCalls
  simp only [List.forall_mem_append]
  refine ⟨⟨⟨⟨⟨⟨⟨named_describe (by simp), ?_⟩, named_describe (by simp)⟩, ?_⟩,
    named_describe (by simp)⟩, ?_⟩, named_describe (by simp)⟩, ?_⟩
  · intro call hcall
    obtain ⟨s, -, hcall⟩ := List.mem_flatMap.mp hcall
    exact named_of_samples (by simp) (samples_serverCalls s call hcall)
  · intro call hcall
    obtain ⟨a, -, hcall⟩ := List.mem_flatMap.mp hcall
    exact named_of_samples (by simp) (samples_agentCalls a call hcall)
  · intro call hcall
    obtain ⟨lb, -, hcall⟩ := List.mem_flatMap.mp hcall
    exact named_of_samples (by simp) (samples_reportCalls lb _ call hcall)
  · intro call hcall
    exact named_of_samples (by simp) (samples_totalCalls lastSync call hcall)

/-- Metrics are described, and then samples of them follow. -/
theorem announced_block {metrics : List (String × String)} {calls rest : List (Call ν)}
    {seen : List String} (hcalls : ∀ call ∈ calls, ∃ base, call.Samples metrics base)
    (hrest : ∀ seen, Announced seen rest) :
    Announced seen (describe metrics ++ (calls ++ rest)) := by
  apply announced_describe
  refine announced_samples ?_ (hrest _)
  intro call hcall
  obtain ⟨base, hsamples⟩ := hcalls call hcall
  cases call with
  | metric name help kind => cases hsamples
  | sample name labels value =>
      exact ⟨name, labels, value, rfl, List.mem_append_left _ hsamples.1⟩

/-- Every sample of the page follows the header of its metric. -/
theorem announced_allCalls : Announced [] (fleet.allCalls py now lastSync) := by
  unfold Fleet.allCalls
  simp only [List.append_assoc]
  refine announced_block ?_ fun _ => announced_block ?_ fun _ => announced_block ?_ fun seen => ?_
  · intro call hcall
    obtain ⟨s, -, hcall⟩ := List.mem_flatMap.mp hcall
    exact ⟨_, samples_serverCalls s call hcall⟩
  · intro call hcall
    obtain ⟨a, -, hcall⟩ := List.mem_flatMap.mp hcall
    exact ⟨_, samples_agentCalls a call hcall⟩
  · intro call hcall
    obtain ⟨lb, -, hcall⟩ := List.mem_flatMap.mp hcall
    exact ⟨_, samples_reportCalls lb _ call hcall⟩
  · have hblock : Announced seen (describe fleetMetrics ++
        (fleet.totalCalls py lastSync ++ ([] : List (Call ν)))) :=
      announced_block (fun call hcall => ⟨_, samples_totalCalls lastSync call hcall⟩)
        fun _ => trivial
    rwa [List.append_nil] at hblock

/-- Headers are no values. -/
theorem oneLine_describe (metrics : List (String × String)) :
    ∀ call ∈ (describe metrics : List (Call ν)), call.OneLine := by
  intro call hcall
  obtain ⟨m, -, rfl⟩ := List.mem_map.mp hcall
  exact trivial

/-- The one value that may hold a line break is what a backend reports as its rate. -/
theorem oneLine_allCalls_iff :
    (∀ call ∈ fleet.allCalls py now lastSync, call.OneLine) ↔
      ∀ lb ∈ fleet.loadBalancers, ∀ b ∈ py.reported lb, ∀ s,
        Json.get b (qpsKey lb.mode) = .str s → '\n' ∉ s.toList := by
  unfold Fleet.allCalls
  simp only [List.forall_mem_append]
  constructor
  · rintro ⟨⟨⟨-, hreports⟩, -⟩, -⟩ lb hlb b hb
    have hrate : (∀ call ∈ backendCalls py (fleet.balancerLabels lb) (qpsKey lb.mode) b,
        call.OneLine) ↔ _ := oneLine_backendCalls_iff _ _ b
    refine hrate.mp fun call hcall => ?_
    exact hreports call (List.mem_flatMap.mpr ⟨lb, hlb, List.mem_append_right _
      (List.mem_flatMap.mpr ⟨b, hb, hcall⟩)⟩)
  · intro hreports
    refine ⟨⟨⟨⟨⟨⟨⟨oneLine_describe _, ?_⟩, oneLine_describe _⟩, ?_⟩, oneLine_describe _⟩, ?_⟩,
      oneLine_describe _⟩, oneLine_totalCalls lastSync⟩
    · intro call hcall
      obtain ⟨s, -, hcall⟩ := List.mem_flatMap.mp hcall
      exact oneLine_serverCalls s call hcall
    · intro call hcall
      obtain ⟨a, -, hcall⟩ := List.mem_flatMap.mp hcall
      exact oneLine_agentCalls a call hcall
    · intro call hcall
      obtain ⟨lb, hlb, hcall⟩ := List.mem_flatMap.mp hcall
      rcases List.mem_append.mp hcall with hcall | hcall
      · exact oneLine_ownCalls lb call hcall
      · obtain ⟨b, hb, hcall⟩ := List.mem_flatMap.mp hcall
        exact (oneLine_backendCalls_iff _ _ b).mpr (hreports lb hlb b hb) call hcall

/-- Headers write no sample. -/
theorem written_describe (metrics : List (String × String)) :
    (describe metrics : List (Call ν)).filterMap (Call.written? py) = [] := by
  rw [describe, List.filterMap_map]
  exact List.filterMap_eq_nil_iff.mpr fun _ _ => rfl

/-- Metrics of different kinds have different names. -/
theorem metrics_apart :
    [serverMetrics, agentMetrics, balancerMetrics, fleetMetrics].Pairwise fun metrics metrics' =>
      ∀ name ∈ metrics.map (metricName ·.1), ∀ name' ∈ metrics'.map (metricName ·.1),
        name ≠ name' := by decide

/-- Samples collide only where two servers, two hosts, two backends of a balancer or two balancers
are named alike. -/
theorem distinct_allCalls_iff (hpy : py.Lawful) :
    Distinct ((fleet.allCalls py now lastSync).filterMap (Call.written? py)) ↔
      (fleet.servers.Pairwise fun s t =>
        ¬ (s.name = t.name ∧ fleet.zone s.zoneId = fleet.zone t.zoneId)) ∧
      (fleet.agents.Pairwise fun a b =>
        ¬ (a.name = b.name ∧ fleet.zone a.zoneId = fleet.zone b.zoneId)) ∧
      (∀ lb ∈ fleet.loadBalancers,
        ((py.reported lb).map fun b => py.text? (Json.get b "name")).Nodup) ∧
      fleet.loadBalancers.Pairwise fun lb lb' => ¬ fleet.SameBalancer lb lb' := by
  have happart := metrics_apart
  simp only [List.pairwise_cons, List.forall_mem_cons] at happart
  obtain ⟨⟨hsa, hsb, hst, -⟩, ⟨hab, hat, -⟩, ⟨hbt, -⟩, -⟩ := happart
  have hservers : ∀ s ∈ (fleet.servers.flatMap (fleet.serverCalls py now)).filterMap
      (Call.written? py), s.name ∈ serverMetrics.map (metricName ·.1) := by
    intro s hs
    rw [List.filterMap_flatMap] at hs
    obtain ⟨t, -, hs⟩ := List.mem_flatMap.mp hs
    exact (written_of_samples (samples_serverCalls t) hs).1
  have hagents : ∀ s ∈ (fleet.agents.flatMap (fleet.agentCalls py now)).filterMap
      (Call.written? py), s.name ∈ agentMetrics.map (metricName ·.1) := by
    intro s hs
    rw [List.filterMap_flatMap] at hs
    obtain ⟨a, -, hs⟩ := List.mem_flatMap.mp hs
    exact (written_of_samples (samples_agentCalls a) hs).1
  have hbalancers : ∀ s ∈ (fleet.loadBalancers.flatMap fun lb =>
      fleet.reportCalls py now lb (py.reported lb)).filterMap (Call.written? py),
      s.name ∈ balancerMetrics.map (metricName ·.1) := by
    intro s hs
    rw [List.filterMap_flatMap] at hs
    obtain ⟨lb, -, hs⟩ := List.mem_flatMap.mp hs
    exact (written_of_samples (samples_reportCalls lb _) hs).1
  have htotals : ∀ s ∈ (fleet.totalCalls py lastSync).filterMap (Call.written? py),
      s.name ∈ fleetMetrics.map (metricName ·.1) :=
    fun s hs => (written_of_samples (samples_totalCalls lastSync) hs).1
  unfold Fleet.allCalls
  simp only [List.append_assoc, List.filterMap_append, written_describe, List.nil_append]
  rw [distinct_append, distinct_append, distinct_append, List.filterMap_flatMap,
    List.filterMap_flatMap, List.filterMap_flatMap,
    distinct_flatMap fun s _ t _ => same_servers_iff hpy s t,
    distinct_flatMap fun a _ b _ => same_agents_iff hpy a b,
    distinct_flatMap fun lb _ lb' _ => same_balancers_iff hpy lb lb' (py.reported lb)
      (py.reported lb')]
  · constructor
    · rintro ⟨⟨-, hs⟩, ⟨-, ha⟩, ⟨hreports, hb⟩, -⟩
      exact ⟨hs, ha, fun lb hlb => (distinct_reportCalls_iff lb _).mp (hreports lb hlb), hb⟩
    · rintro ⟨hs, ha, hreports, hb⟩
      exact ⟨⟨fun s _ => distinct_serverCalls s, hs⟩, ⟨fun a _ => distinct_agentCalls a, ha⟩,
        ⟨fun lb hlb => (distinct_reportCalls_iff lb _).mpr (hreports lb hlb), hb⟩,
        distinct_totalCalls lastSync⟩
  · intro s hs t ht
    exact hbt _ (hbalancers s hs) _ (htotals t ht)
  · intro s hs t ht
    rcases List.mem_append.mp ht with ht | ht
    · exact hab _ (hagents s hs) _ (hbalancers t ht)
    · exact hat _ (hagents s hs) _ (htotals t ht)
  · intro s hs t ht
    rcases List.mem_append.mp ht with ht | ht
    · exact hsa _ (hservers s hs) _ (hagents t ht)
    · rcases List.mem_append.mp ht with ht | ht
      · exact hsb _ (hservers s hs) _ (hbalancers t ht)
      · exact hst _ (hservers s hs) _ (htotals t ht)

/-- **The metrics page is valid** exactly if the fleet can be told apart and printed. -/
theorem prometheus_valid_iff (hpy : py.Lawful) :
    (∃ calls page, fleet.calls py now lastSync = some calls ∧
      (prometheus py fleet now lastSync).bind (readPage ·.toList) = some page ∧
        Valid py calls page) ↔ Distinguishable py fleet := by
  have hvalid : (∃ page, readPage (render py (fleet.allCalls py now lastSync)).toList = some page ∧
      Valid py (fleet.allCalls py now lastSync) page) ↔ _ :=
    valid_iff py named_allCalls announced_allCalls
  rw [values_iff hpy, oneLine_allCalls_iff, distinct_allCalls_iff hpy] at hvalid
  constructor
  · rintro ⟨calls, page, hcalls, hread, hpage⟩
    have hreported := reported_of_calls hcalls
    rw [calls_eq hreported] at hcalls
    obtain rfl := Option.some.inj hcalls
    rw [prometheus, calls_eq hreported, Option.map_some, Option.bind_some] at hread
    obtain ⟨hlines, hs, ha, hnames, hb⟩ := hvalid.mp ⟨page, hread, hpage⟩
    refine ⟨hs, ha, hb, fun lb hlb => ?_⟩
    obtain ⟨bs, hbs⟩ := hreported lb hlb
    have heq : py.reported lb = bs := by rw [Interpreter.reported, hbs, Option.getD_some]
    have hlb' := hnames lb hlb
    have hline := hlines lb hlb
    rw [heq] at hlb' hline
    exact ⟨bs, hbs, hlb', hline⟩
  · intro h
    have hreported : ∀ lb ∈ fleet.loadBalancers, ∃ bs, py.backends lb = some bs :=
      fun lb hlb => (h.reports lb hlb).imp fun bs hbs => hbs.1
    have heach : ∀ lb ∈ fleet.loadBalancers,
        ((py.reported lb).map fun b => py.text? (Json.get b "name")).Nodup ∧
          ∀ b ∈ py.reported lb, ∀ s, Json.get b (qpsKey lb.mode) = .str s → '\n' ∉ s.toList := by
      intro lb hlb
      obtain ⟨bs, hbs, hnames, hlines⟩ := h.reports lb hlb
      rw [Interpreter.reported, hbs, Option.getD_some]
      exact ⟨hnames, hlines⟩
    obtain ⟨page, hread, hpage⟩ := hvalid.mpr ⟨fun lb hlb => (heach lb hlb).2, h.servers, h.agents,
      fun lb hlb => (heach lb hlb).1, h.balancers⟩
    refine ⟨_, page, calls_eq hreported, ?_, hpage⟩
    rw [prometheus, calls_eq hreported, Option.map_some, Option.bind_some]
    exact hread

/-! ### Two servers -/

/-- Values as they print when all numbers are whole. -/
def whole : Interpreter Nat where
  str
    | .null => "None"
    | .bool b => if b then "True" else "False"
    | .num n => String.ofList (Nat.toDigits 10 n)
    | .str s => s
    | .arr _ => "[]"
    | .obj _ => "\x7b\x7d"
  isZero n := n = 0
  ofInt := Int.toNat
  roundSeconds t := (t / 1000000).toNat
  unixTime t := (t / 1000000).toNat

/-- This interpreter follows the laws of Python's. -/
theorem whole_lawful : whole.Lawful where
  str_str _ := rfl
  str_line v hv := by
    cases v with
    | null => exact newline_not_mem_ofList rfl
    | bool b => cases b <;> exact newline_not_mem_ofList rfl
    | num n =>
        show '\n' ∉ (String.ofList (Nat.toDigits 10 n)).toList
        rw [String.toList_ofList]
        exact GoText.not_mem_toDigits (by decide) n
    | str s => exact absurd rfl (hv s)
    | arr items => exact newline_not_mem_ofList rfl
    | obj fields => exact newline_not_mem_ofList rfl

def serverNamed (id : Nat) (name : String) : Server :=
  ⟨id, name, some 1, true, .online, true, false, some "v0.107.80"⟩

/-- A zone with servers and nothing else. -/
def lan (servers : List Server) : Fleet Nat :=
  ⟨[⟨1, "LAN"⟩], [], servers, [], [], 60 * 1000000⟩

theorem two_names_are_valid :
    ∃ calls page,
      (lan [serverNamed 1 "dns-1", serverNamed 2 "dns-2"]).calls whole 0 none = some calls ∧
        (prometheus whole (lan [serverNamed 1 "dns-1", serverNamed 2 "dns-2"]) 0 none).bind
          (readPage ·.toList) = some page ∧ Valid whole calls page :=
  (prometheus_valid_iff whole_lawful).mpr
    { servers := by decide
      agents := List.Pairwise.nil
      balancers := List.Pairwise.nil
      reports := fun lb hlb => nomatch hlb }

/-- Two servers of one zone may have the same name, and then their samples are of one series. -/
theorem namesakes_collide :
    ¬ ∃ calls page,
      (lan [serverNamed 1 "dns", serverNamed 2 "dns"]).calls whole 0 none = some calls ∧
        (prometheus whole (lan [serverNamed 1 "dns", serverNamed 2 "dns"]) 0 none).bind
          (readPage ·.toList) = some page ∧ Valid whole calls page := by
  rintro ⟨calls, page, hcalls, -, hvalid⟩
  have hnone : ∀ lb ∈ (lan [serverNamed 1 "dns", serverNamed 2 "dns"]).loadBalancers,
      ∃ bs, whole.backends lb = some bs := fun lb hlb => nomatch hlb
  rw [calls_eq hnone] at hcalls
  obtain rfl := Option.some.inj hcalls
  have hdistinct := hvalid.distinct
  rw [hvalid.originals, distinct_allCalls_iff whole_lawful] at hdistinct
  exact absurd hdistinct.1 (by decide)

end AdguardAdmin.MetricsPage
