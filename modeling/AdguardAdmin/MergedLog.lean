import Mathlib
import AdguardAdmin.QueryLog
/-!
# The merged query log

The merged log is the newest of all logs, although each server returns only its own newest
entries: `merged_log_newest`.  The entries have RFC 3339 timestamps that a `datetime` can hold;
a leap second is one that it cannot, and an entry with it counts as the oldest of all
(`leap_second_sorts_last`).
-/

namespace AdguardAdmin.QueryLog

open NewestEntries PyTime Rfc3339

variable {ν : Type}

/-! ## Entries -/

/-- The value of a member that may be missing. -/
def NullOr (p : Json ν → Prop) (v : Json ν) : Prop := v = .null ∨ p v

def IsText (v : Json ν) : Prop := ∃ s, v = .str s

def IsObject (v : Json ν) : Prop := ∃ fields, v = .obj fields

/-- The answers of an entry: objects, whose values are texts. -/
def AreAnswers (v : Json ν) : Prop :=
  ∃ answers : List (List (String × Json ν)), v = .arr (answers.map .obj) ∧
    ∀ a ∈ answers, NullOr IsText (Json.get a "value")

/-- An entry of the log of a server. -/
structure Entry (ν : Type) where
  fields : List (String × Json ν)
  stamp : Timestamp
  time_eq : Json.get fields "time" = .str (String.ofList stamp.text)
  reason : NullOr IsText (Json.get fields "reason")
  question : NullOr IsObject (Json.get fields "question")
  clientInfo : NullOr IsObject (Json.get fields "client_info")
  answer : NullOr AreAnswers (Json.get fields "answer")

def Entry.instant (e : Entry ν) : Int := e.stamp.instant

variable (py : Interpreter ν)

/-- The answers of an entry can be joined. -/
theorem answer_isSome (e : Entry ν) : ∃ text, py.answer e.fields = some text := by
  obtain ⟨answers, hanswers, hvalues⟩ : ∃ answers : List (List (String × Json ν)),
      iterate (orElse py.isZero (Json.get e.fields "answer") (.arr [])) =
        some (answers.map .obj) ∧ ∀ a ∈ answers, NullOr IsText (Json.get a "value") := by
    rcases e.answer with hnull | ⟨answers, harr, hvalues⟩
    · exact ⟨[], iterate_orElse py.isZero (.inl ⟨hnull, rfl⟩), fun a ha => nomatch ha⟩
    · exact ⟨answers, iterate_orElse py.isZero (.inr harr), hvalues⟩
  have hobjects : (answers.map Json.obj).mapM asObject? = some answers := by
    have hread : ∀ v ∈ answers.map Json.obj, asObject? v = some (fieldsOf v) := by
      intro v hv
      obtain ⟨a, -, rfl⟩ := List.mem_map.mp hv
      rfl
    rw [mapM_eq_some hread, List.map_map]
    exact congrArg some (List.map_id _)
  have htexts : ∀ v ∈ (answers.map fun a => Json.get a "value").filter (truthy py.isZero),
      ∃ s, asText? v = some s := by
    intro v hv
    obtain ⟨hv, htruthy⟩ := List.mem_filter.mp hv
    obtain ⟨a, ha, rfl⟩ := List.mem_map.mp hv
    rcases hvalues a ha with hnull | ⟨s, hs⟩
    · rw [hnull] at htruthy
      exact nomatch htruthy
    · exact ⟨s, by rw [hs]; rfl⟩
  obtain ⟨texts, htexts⟩ := mapM_isSome htexts
  refine ⟨", ".intercalate texts, ?_⟩
  rw [Interpreter.answer, hanswers]
  simp only [Option.bind_eq_bind, Option.bind_some, hobjects, htexts]
  rfl

/-- An entry has a row, with its time and the server it came from. -/
theorem row_isSome (srv : Server) (e : Entry ν) : ∃ row, py.row srv e.fields = some row ∧
    row.serverId = srv.id ∧ row.server = srv.name ∧
      row.time = .str (String.ofList e.stamp.text) := by
  obtain ⟨reason, hreason⟩ := asText?_orElse py.isZero e.reason
  obtain ⟨q, hq⟩ := asObject?_orElse py.isZero e.question
  obtain ⟨info, hinfo⟩ := asObject?_orElse py.isZero e.clientInfo
  obtain ⟨answer, hanswer⟩ := answer_isSome py e
  rw [Interpreter.row, hreason, hq, hinfo, hanswer]
  exact ⟨_, rfl, rfl, rfl, e.time_eq⟩

/-! ### Times -/

/-- Digits are neither spaces nor marks of a zone. -/
theorem digitChar_cases {d : Nat} (hd : d < 10) : PyText.isSpace (Nat.digitChar d) = false ∧
    Nat.digitChar d ≠ 'Z' ∧ Nat.digitChar d ≠ 'z' := by
  have hall : ∀ d < 10, PyText.isSpace (Nat.digitChar d) = false ∧
      Nat.digitChar d ≠ 'Z' ∧ Nat.digitChar d ≠ 'z' := by decide
  exact hall d hd

/-- A timestamp begins with a digit. -/
theorem text_head (t : Timestamp) :
    ∃ rest, t.text = Nat.digitChar (t.year / 100 / 10) :: rest := ⟨_, rfl⟩

/-- A timestamp ends in `Z` or in a digit of its offset. -/
theorem text_last (t : Timestamp) :
    (∃ capital, t.zone = .utc capital ∧ t.text.getLast? = some (if capital then 'Z' else 'z')) ∨
      offsetText t.zone = Timestamp.zoneText t.zone ∧
        ∃ d < 10, t.text.getLast? = some (Nat.digitChar d) := by
  rw [Timestamp.text]
  cases hz : t.zone with
  | utc capital => exact .inl ⟨capital, rfl, by simp [Timestamp.zoneText]⟩
  | offset plus hours minutes =>
      refine .inr ⟨rfl, minutes % 10, by omega, ?_⟩
      rw [Timestamp.zoneText, List.getLast?_append_of_ne_nil _ (by simp)]
      simp [two]

/-- The text of a timestamp has no blanks around it. -/
theorem strip_text (t : Timestamp) : PyText.stripBy PyText.isSpace t.text = t.text := by
  apply PyText.stripBy_eq_self_of_ends
  · intro c hc
    obtain ⟨rest, htext⟩ := text_head t
    have hyear := t.year_le
    rw [htext] at hc
    cases hc
    exact (digitChar_cases (by omega)).1
  · intro c hc
    rcases text_last t with ⟨capital, -, hlast⟩ | ⟨-, d, hd, hlast⟩
    · rw [hlast] at hc
      cases hc
      cases capital
      · rfl
      · rfl
    · rw [hlast] at hc
      cases hc
      exact (digitChar_cases hd).1

/-- The zone of a timestamp is spelled out as an offset. -/
theorem spellOut_text (t : Timestamp) :
    spellOut t.text = t.dateTimeText ++ t.fractionText ++ offsetText t.zone := by
  rcases text_last t with ⟨capital, hz, hlast⟩ | ⟨hzone, d, hd, hlast⟩
  · have hend : t.text.getLast? = some 'Z' ∨ t.text.getLast? = some 'z' := by
      cases capital
      · exact .inr hlast
      · exact .inl hlast
    rw [spellOut, if_pos hend, Timestamp.text, hz, Timestamp.zoneText, List.dropLast_concat]
    rfl
  · have hdigit := digitChar_cases hd
    rw [spellOut, if_neg (by simp [hlast, hdigit.2]), Timestamp.text, hzone]

/-- A timestamp is parsed as the text of its fields. -/
theorem parseTime_eq (t : Timestamp) :
    py.parseTime (.str (String.ofList t.text)) =
      (fromisoformat py.otherForms
        (t.dateTimeText ++ t.fractionText ++ offsetText t.zone)).getD epoch := by
  have hne : String.ofList t.text ≠ "" := by
    obtain ⟨rest, htext⟩ := text_head t
    rw [htext]
    intro hempty
    simpa using congrArg String.toList hempty
  rw [Interpreter.parseTime, if_neg hne, String.toList_ofList, strip_text, spellOut_text]

/-- **Times are compared as instants**. -/
theorem parseTime_text {t : Timestamp} (h : Holds t) :
    py.parseTime (.str (String.ofList t.text)) = t.instant - yearZero := by
  rw [parseTime_eq, fromisoformat_timestamp py.otherForms h]
  rfl

/-- What a datetime cannot hold is sorted to the end. -/
theorem parseTime_not_held {t : Timestamp} (h : ¬ Holds t) :
    py.parseTime (.str (String.ofList t.text)) = epoch := by
  rw [parseTime_eq, fromisoformat_eq_none py.otherForms h]
  rfl

/-! ## Servers -/

/-- What a server returns when it is asked for its newest `limit` entries: nothing, or those of
its log, in any order. -/
inductive Serves (limit : Nat) : Reply ν → List (Entry ν) → Prop
  | fails : Serves limit .raises []
  | garbled (v : Json ν) (h : ∀ fields, v ≠ .obj fields) : Serves limit (.json v) []
  | answers (fields : List (String × Json ν)) (log page : List (Entry ν))
      (hdata : Json.get fields "data" = .arr (page.map fun e => .obj e.fields))
      (hpage : Newest Entry.instant limit log page) : Serves limit (.json (.obj fields)) log

/-- The rows of a page. -/
theorem rows_of_page {fields : List (String × Json ν)} {page : List (Entry ν)}
    (hdata : Json.get fields "data" = .arr (page.map fun e => .obj e.fields)) (srv : Server)
    {rowOf : Server → Entry ν → Row ν}
    (hrow : ∀ srv e, py.row srv e.fields = some (rowOf srv e)) :
    py.rows srv (py.fetch (.json (.obj fields))) = some (page.map (rowOf srv)) := by
  have hitems := iterate_orElse py.isZero (.inr hdata)
  have hobjects : (page.map fun e => Json.obj e.fields).filterMap asObject? =
      page.map Entry.fields := by
    rw [List.filterMap_map, ← List.filterMap_eq_map]
    rfl
  have hrows := mapM_eq_some fun e (_ : e ∈ page) => hrow srv e
  rw [Interpreter.rows, Interpreter.fetch, hitems]
  simp only [Option.bind_eq_bind, Option.bind_some, hobjects, List.mapM_map]
  exact hrows

/-- The rows of a server are those of a page with its newest entries. -/
theorem rows_of_serves {limit : Nat} {reply : Reply ν} {log : List (Entry ν)}
    (h : Serves limit reply log) (srv : Server) {rowOf : Server → Entry ν → Row ν}
    (hrow : ∀ srv e, py.row srv e.fields = some (rowOf srv e)) :
    ∃ page, Newest Entry.instant limit log page ∧
      py.rows srv (py.fetch reply) = some (page.map (rowOf srv)) := by
  have hnothing : Newest Entry.instant limit ([] : List (Entry ν)) [] :=
    ⟨by simp, [], List.Perm.refl _, fun a ha => nomatch ha⟩
  cases h with
  | fails => exact ⟨[], hnothing, rfl⟩
  | garbled v h =>
      refine ⟨[], hnothing, ?_⟩
      cases v with
      | obj fields => exact absurd rfl (h fields)
      | _ => rfl
  | answers fields log page hdata hpage =>
      exact ⟨page, hpage, rows_of_page py hdata srv hrow⟩

/-! ## The response -/

/-- A row shows an entry, and the server that it came from. -/
def Interpreter.Shows (py : Interpreter ν) (row : Row ν) (entry : Server × Entry ν) : Prop :=
  py.row entry.1 entry.2.fields = some row ∧ row.serverId = entry.1.id ∧
    row.server = entry.1.name

/-- The response consists of the newest of all entries, the newest first. -/
def Interpreter.Merges (py : Interpreter ν) (limit : Nat) (all : List (Server × Entry ν))
    (response : Option (Response ν)) : Prop :=
  ∃ r kept, response = some r ∧ Newest (fun p => p.2.instant) limit all kept ∧
    kept.Pairwise (fun a b => b.2.instant ≤ a.2.instant) ∧
    List.Forall₂ py.Shows r.entries kept

/-- The entries of the logs, each with its server. -/
def entriesOf (targets : List Server) (log : Server → List (Entry ν)) :
    List (Server × Entry ν) :=
  targets.flatMap fun srv => (log srv).map fun e => (srv, e)

/-- The newest entries of all logs are among the newest of each. -/
theorem newest_entriesOf {targets : List Server} {limit : Nat}
    {log page : Server → List (Entry ν)}
    (h : ∀ srv ∈ targets, Newest Entry.instant limit (log srv) (page srv))
    {kept : List (Server × Entry ν)}
    (hkept : Newest (fun p => p.2.instant) limit (entriesOf targets page) kept) :
    Newest (fun p => p.2.instant) limit (entriesOf targets log) kept := by
  let pieces := targets.map fun srv =>
    ((log srv).map fun e => (srv, e), (page srv).map fun e => (srv, e))
  have hpieces : ∀ p ∈ pieces, Newest (fun p => p.2.instant) limit p.1 p.2 := by
    intro p hp
    obtain ⟨srv, hsrv, rfl⟩ := List.mem_map.mp hp
    exact Newest.map (f := fun e => (srv, e)) (h srv hsrv)
  have hfst : pieces.flatMap Prod.fst = entriesOf targets log := by
    rw [List.flatMap_map, entriesOf]
  have hsnd : pieces.flatMap Prod.snd = entriesOf targets page := by
    rw [List.flatMap_map, entriesOf]
  rw [← hsnd] at hkept
  rw [← hfst]
  exact newest_pieces hpieces hkept

/-- The response, if every server returned a page of entries. -/
theorem queryLog_eq {servers : List Server} {control : Server → Params → Reply ν} {q : Query}
    {rowOf : Server → Entry ν → Row ν} {page : Server → List (Entry ν)}
    (hrows : ∀ srv ∈ q.targets servers,
      py.rows srv (py.fetch (control srv q.params)) = some ((page srv).map (rowOf srv))) :
    py.queryLog servers control q = some
      { entries := (descending (fun x => py.parseTime x.time)
          ((entriesOf (q.targets servers) page).map fun p => rowOf p.1 p.2)).take q.limit
        serversQueried := (q.targets servers).length
        totalFetched := (entriesOf (q.targets servers) page).length } := by
  have hresults : ((q.targets servers).map fun srv =>
      (srv, py.fetch (control srv q.params))).mapM (fun result => py.rows result.1 result.2) =
        some ((q.targets servers).map fun srv => (page srv).map (rowOf srv)) := by
    rw [List.mapM_map]
    exact mapM_eq_some hrows
  have hflat : ((q.targets servers).map fun srv => (page srv).map (rowOf srv)).flatten =
      (entriesOf (q.targets servers) page).map fun p => rowOf p.1 p.2 := by
    rw [entriesOf, List.map_flatMap, List.flatMap_def]
    simp only [List.map_map]
    rfl
  rw [Interpreter.queryLog]
  simp only [hresults, Option.bind_eq_bind, Option.bind_some, hflat, List.length_map]
  rfl

/-- **The merged log** is the newest of the logs of all servers that answer. -/
theorem merged_log_newest (py : Interpreter ν) (servers : List Server)
    (control : Server → Params → Reply ν) (q : Query) (log : Server → List (Entry ν))
    (hserves : ∀ srv ∈ q.targets servers, Serves q.limit (control srv q.params) (log srv))
    (hholds : ∀ srv ∈ q.targets servers, ∀ e ∈ log srv, Holds e.stamp) :
    py.Merges q.limit (entriesOf (q.targets servers) log) (py.queryLog servers control q) := by
  choose rowOf hrow using fun (srv : Server) (e : Entry ν) => row_isSome py srv e
  have hpages : ∀ srv, ∃ page, srv ∈ q.targets servers →
      Newest Entry.instant q.limit (log srv) page ∧
        py.rows srv (py.fetch (control srv q.params)) = some (page.map (rowOf srv)) := by
    intro srv
    by_cases hsrv : srv ∈ q.targets servers
    · obtain ⟨page, hpage⟩ := rows_of_serves py (hserves srv hsrv) srv fun srv e => (hrow srv e).1
      exact ⟨page, fun _ => hpage⟩
    · exact ⟨[], fun h => absurd h hsrv⟩
  choose page hpage using hpages
  -- each row is sorted by the instant of its entry
  have htime : ∀ p ∈ entriesOf (q.targets servers) page,
      py.parseTime (rowOf p.1 p.2).time = p.2.instant - yearZero := by
    intro p hp
    obtain ⟨srv, hsrv, hp⟩ := List.mem_flatMap.mp hp
    obtain ⟨e, he, rfl⟩ := List.mem_map.mp hp
    have hstamp := hholds srv hsrv e ((hpage srv hsrv).1.subset he)
    rw [(hrow srv e).2.2.2]
    exact parseTime_text py hstamp
  have hsorted : descending (fun x => py.parseTime x.time)
      ((entriesOf (q.targets servers) page).map fun p => rowOf p.1 p.2) =
        (descending (fun p => p.2.instant) (entriesOf (q.targets servers) page)).map
          fun p => rowOf p.1 p.2 := by
    apply descending_map
    intro a ha b hb
    rw [htime a ha, htime b hb]
    omega
  refine ⟨_, (descending (fun p => p.2.instant) (entriesOf (q.targets servers) page)).take
    q.limit, queryLog_eq py fun srv hsrv => (hpage srv hsrv).2, ?_, ?_, ?_⟩
  · exact newest_entriesOf (fun srv hsrv => (hpage srv hsrv).1) (newest_take _)
  · exact (pairwise_descending _).sublist (List.take_sublist _ _)
  · rw [hsorted, ← List.map_take, List.forall₂_map_left_iff, List.forall₂_same]
    exact fun p _ => ⟨(hrow p.1 p.2).1, (hrow p.1 p.2).2.1, (hrow p.1 p.2).2.2.1⟩

/-! ### The last minute of 1990 -/

/-- The last minute of 1990 had 61 seconds. -/
def lastMinute (second : Fin 61) (fraction : List (Fin 10)) : Timestamp where
  year := 1990
  month := 12
  day := 31
  separator := 'T'
  hour := 23
  minute := 59
  second := second
  fraction := fraction
  zone := .utc true
  year_le := by decide
  month_mem := by decide
  day_mem := by decide
  separator_mem := by decide
  hour_le := by decide
  minute_le := by decide
  second_le := Nat.le_of_lt_succ second.isLt
  zone_le := fun _ _ _ h => nomatch h

/-- An entry with nothing but a time. -/
def bareEntry (t : Timestamp) : Entry Int where
  fields := [("time", .str (String.ofList t.text))]
  stamp := t
  time_eq := rfl
  reason := .inl rfl
  question := .inl rfl
  clientInfo := .inl rfl
  answer := .inl rfl

def plainPython : Interpreter Int := ⟨(· = 0), fun _ => none⟩

def first : Server := ⟨1, "first", true, none⟩

def second : Server := ⟨2, "second", true, none⟩

def down : Server := ⟨3, "down", true, none⟩

/-- A request for the one newest entry. -/
def newestOne : Query := ⟨none, none, none, "all", 1, by decide⟩

/-- Servers that return these pages, but for one that is down. -/
def answering (page : Server → List (Entry Int)) (srv : Server) (_ : Params) : Reply Int :=
  if srv = down then .raises
  else .json (.obj [("data", .arr ((page srv).map fun e => .obj e.fields))])

/-- A quarter of a second. -/
def quarter : List (Fin 10) := [⟨2, by decide⟩, ⟨5, by decide⟩]

/-- The log of the first server has two entries. -/
def twoLogs (srv : Server) : List (Entry Int) :=
  if srv = first then [bareEntry (lastMinute 58 []), bareEntry (lastMinute 59 [])]
  else if srv = second then [bareEntry (lastMinute 59 quarter)]
  else []

def newestPages (srv : Server) : List (Entry Int) :=
  if srv = first then [bareEntry (lastMinute 59 [])]
  else if srv = second then [bareEntry (lastMinute 59 quarter)]
  else []

/-- The instants of a last minute, second by second. -/
theorem instant_lastMinute (s : Fin 61) (fraction : List (Fin 10)) :
    (lastMinute s fraction).instant =
      (lastMinute 0 []).instant + (s : Nat) * 1000000 + Timestamp.micros fraction := by
  have hnone : Timestamp.micros [] = 0 := rfl
  simp only [Timestamp.instant, lastMinute, Fin.val_zero, hnone]
  push_cast
  ring

/-- The theorem applies to two logs, of which one server is down. -/
theorem two_logs_are_merged :
    plainPython.Merges 1 (entriesOf (newestOne.targets [first, second, down]) twoLogs)
      (plainPython.queryLog [first, second, down] (answering newestPages) newestOne) := by
  have hfirst : Serves 1 (answering newestPages first newestOne.params) (twoLogs first) := by
    refine .answers _ _ [bareEntry (lastMinute 59 [])] rfl
      ⟨rfl, [bareEntry (lastMinute 58 [])], List.Perm.swap _ _ _, ?_⟩
    intro a ha b hb
    rw [List.mem_singleton.mp ha, List.mem_singleton.mp hb]
    simp only [Entry.instant, bareEntry, instant_lastMinute 58, instant_lastMinute 59]
    simp
  have hsecond : Serves 1 (answering newestPages second newestOne.params) (twoLogs second) :=
    .answers _ _ [bareEntry (lastMinute 59 quarter)] rfl
      ⟨rfl, [], List.Perm.refl _, fun a _ b hb => nomatch hb⟩
  have htargets : newestOne.targets [first, second, down] = [first, second, down] := rfl
  apply merged_log_newest
  · intro srv hsrv
    have hcases : srv = first ∨ srv = second ∨ srv = down := by simpa [htargets] using hsrv
    rcases hcases with rfl | rfl | rfl
    · exact hfirst
    · exact hsecond
    · exact .fails
  · intro srv _ e he
    unfold twoLogs at he
    have hcases : ∃ s f, e = bareEntry (lastMinute s f) ∧ s ≤ 59 := by
      split_ifs at he
      · rcases List.mem_pair.mp he with rfl | rfl
        · exact ⟨58, [], rfl, by decide⟩
        · exact ⟨59, [], rfl, by decide⟩
      · rw [List.mem_singleton.mp he]
        exact ⟨59, [2, 5], rfl, by decide⟩
      · exact nomatch he
    obtain ⟨s, f, rfl, hs⟩ := hcases
    exact ⟨(by decide : 1 ≤ 1990), hs⟩

/-! ### A leap second -/

/-- One log has the leap second, the other one the second before it. -/
def aroundTheLeap (srv : Server) : List (Entry Int) :=
  if srv = first then [bareEntry (lastMinute 60 [])] else [bareEntry (lastMinute 59 [])]

/-- Of two entries around the leap second only the one before it is shown. -/
theorem entries_around_the_leap {r : Response Int}
    (h : plainPython.queryLog [first, second] (answering aroundTheLeap) newestOne = some r) :
    r.entries.map (·.serverId) = [2] := by
  choose rowOf hrow using fun (srv : Server) (e : Entry Int) => row_isSome plainPython srv e
  have htargets : newestOne.targets [first, second] = [first, second] := rfl
  have hrows : ∀ srv ∈ newestOne.targets [first, second], plainPython.rows srv
      (plainPython.fetch (answering aroundTheLeap srv newestOne.params)) =
        some ((aroundTheLeap srv).map (rowOf srv)) := by
    intro srv hsrv
    have hup : srv ≠ down := by
      intro hdown
      rw [htargets, hdown] at hsrv
      exact absurd hsrv (by decide)
    rw [answering, if_neg hup]
    exact rows_of_page plainPython rfl srv fun srv e => (hrow srv e).1
  have hresponse := queryLog_eq plainPython hrows
  rw [h] at hresponse
  cases hresponse
  let leap := rowOf first (bareEntry (lastMinute 60 []))
  let before := rowOf second (bareEntry (lastMinute 59 []))
  have hleap : plainPython.parseTime leap.time = 0 := by
    rw [(hrow _ _).2.2.2]
    exact parseTime_not_held plainPython fun hheld => absurd hheld.2 (by decide)
  have hbefore : 0 < plainPython.parseTime before.time := by
    rw [(hrow _ _).2.2.2, bareEntry, parseTime_text plainPython ⟨by decide, by decide⟩]
    have hyears : Rfc3339.daysBeforeYear 1990 + 1989 / 100 = 366 + 1989 * 365 + 1989 / 4 +
        1989 / 400 := Rfc3339.daysBeforeYear_eq 1989
    have hzone : Timestamp.offsetSeconds (.utc true) = 0 := rfl
    simp only [Timestamp.instant, lastMinute, daysBefore, yearZero, hzone]
    omega
  have htwo : before.serverId = 2 := (hrow _ _).2.1
  have hnewest : Newest (fun x => plainPython.parseTime x.time) 1 [leap, before]
      ((descending (fun x => plainPython.parseTime x.time) [leap, before]).take 1) :=
    newest_take _
  have hshown := hnewest.one (b := before) (by simp) (by
    intro a ha hne
    have ha : a = leap := by simpa [hne] using ha
    rw [ha, hleap]
    exact hbefore)
  have hentries : ((descending (fun x => plainPython.parseTime x.time)
      [leap, before]).take 1).map (·.serverId) = [2] := by
    rw [hshown, List.map_singleton, htwo]
  exact hentries

/-- A leap second cannot be read, so that an entry with one counts as the oldest. -/
theorem leap_second_sorts_last :
    ¬ ∀ (servers : List Server) (control : Server → Params → Reply Int) (q : Query)
      (log : Server → List (Entry Int)),
      (∀ srv ∈ q.targets servers, Serves q.limit (control srv q.params) (log srv)) →
        plainPython.Merges q.limit (entriesOf (q.targets servers) log)
          (plainPython.queryLog servers control q) := by
  intro hclaim
  have htargets : newestOne.targets [first, second] = [first, second] := rfl
  have hserves : ∀ srv ∈ newestOne.targets [first, second],
      Serves 1 (answering aroundTheLeap srv newestOne.params) (aroundTheLeap srv) := by
    intro srv hsrv
    have hcases : srv = first ∨ srv = second := by simpa [htargets] using hsrv
    rcases hcases with rfl | rfl
    · exact .answers _ _ [bareEntry (lastMinute 60 [])] rfl
        ⟨rfl, [], List.Perm.refl _, fun a _ b hb => nomatch hb⟩
    · exact .answers _ _ [bareEntry (lastMinute 59 [])] rfl
        ⟨rfl, [], List.Perm.refl _, fun a _ b hb => nomatch hb⟩
  obtain ⟨r, kept, hresponse, hnewest, -, hshows⟩ :=
    hclaim [first, second] (answering aroundTheLeap) newestOne aroundTheLeap hserves
  have hids := entries_around_the_leap hresponse
  -- but the leap second is the newest
  have hkept : kept = [(first, bareEntry (lastMinute 60 []))] := by
    apply hnewest.one
    · exact List.mem_cons_self
    · intro p hp hne
      have hp : p = (first, bareEntry (lastMinute 60 [])) ∨
          p = (second, bareEntry (lastMinute 59 [])) := by
        simpa [entriesOf, htargets, aroundTheLeap, show second ≠ first by decide] using hp
      rcases hp with rfl | rfl
      · exact absurd rfl hne
      · simp only [Entry.instant, bareEntry, instant_lastMinute 59, instant_lastMinute 60]
        simp
  subst hkept
  cases hentries : r.entries with
  | nil =>
      rw [hentries] at hids
      exact nomatch hids
  | cons row rows =>
      rw [hentries] at hids hshows
      cases hshows with
      | cons hrow hrows =>
          have hone : row.serverId = 1 := hrow.2.1
          have htwo : row.serverId = 2 := by
            injection hids
          omega

end AdguardAdmin.QueryLog
