import Mathlib
import AdguardAdmin.CompatWrites
/-!
# The rewrite list of the compatible API

`GET /rewrite/list` shows the desired rewrites of a scope: the enabled records that apply to
it.  `POST /rewrite/add` asks another question before it adds one, whether any record has the
domain and the answer, be it disabled or of another zone.  `agree_iff` says for which
rewrites the answers are the same.
-/

namespace AdguardAdmin.Compat

open PyText

/-- The order of the list. -/
def rewriteLe (a b : Rewrite) : Bool :=
  a.domain < b.domain || (a.domain = b.domain && a.answer ≤ b.answer)

/-- Whether the list of the fleet, or of a zone, shows a record. -/
def showsRecord (scope : Scope) (r : Record) : Bool :=
  r.enabled && match scope.zoneId with
    | some zid => r.scope = .global || decide (zid ∈ r.zoneIds)
    | none => true

/-- `_records_in_scope`. -/
def recordsInScope (scope : Scope) (db : Db) : List Rewrite :=
  match scope.serverId with
  | some id =>
      match db.servers.find? (·.id = id) with
      | none => []
      | some server => (desiredRewritesForServer db.config server).mergeSort rewriteLe
  | none =>
      ((db.records.filter (showsRecord scope)).map fun r =>
        ⟨r.domain, r.answer⟩).mergeSort rewriteLe

/-- The scope of the fleet's tree or, with a zone, of that zone's. -/
def treeScope (zoneId : Option Nat) : Scope := ⟨zoneId, none⟩

section Handlers

variable (lower : String → String)

/-- A rewrite as the handlers write and look it up. -/
def normalRewrite (domain answer : String) : Rewrite := ⟨lower (strip domain), strip answer⟩

/-- `GET /rewrite/list` shows the rewrite. -/
def Listed (scope : Scope) (db : Db) (domain answer : String) : Prop :=
  normalRewrite lower domain answer ∈ recordsInScope scope db

/-- The arguments are more than blanks. -/
def NonEmpty (domain answer : String) : Prop := lower (strip domain) ≠ "" ∧ strip answer ≠ ""

/-- What add, delete and list have to do with each other. -/
structure Agree (scope : Scope) (db : Db) (domain answer : String) : Prop where
  refuses : NonEmpty lower domain answer →
    ((∃ e, rewriteAdd lower scope domain answer db = .error e) ↔ Listed lower scope db domain answer)
  shows : NonEmpty lower domain answer → ∀ after,
    rewriteAdd lower scope domain answer db = .ok after → Listed lower scope after domain answer
  hides : ∀ after,
    rewriteDelete lower domain answer db = .ok after → ¬ Listed lower scope after domain answer

/-- Some record has the rewrite, but none that is enabled and applies to the scope. -/
def OnlyElsewhere (scope : Scope) (db : Db) (domain answer : String) : Prop :=
  (∃ r ∈ db.records, ofRewrite lower domain answer r = true) ∧
    ∀ r ∈ db.records, ofRewrite lower domain answer r = true → showsRecord scope r = false

end Handlers

variable {lower : String → String} {zoneId : Option Nat} {db : Db} {domain answer : String}

/-- A record is of a rewrite when it has its normal form. -/
theorem ofRewrite_iff {r : Record} :
    ofRewrite lower domain answer r = true ↔
      (⟨r.domain, r.answer⟩ : Rewrite) = normalRewrite lower domain answer := by
  simp [ofRewrite, normalRewrite]

/-- The list shows a rewrite that an enabled record of the scope has. -/
theorem listed_iff : Listed lower (treeScope zoneId) db domain answer ↔
    ∃ r ∈ db.records, showsRecord (treeScope zoneId) r = true ∧
      ofRewrite lower domain answer r = true := by
  simp only [Listed, recordsInScope, treeScope, List.mem_mergeSort, List.mem_map, List.mem_filter,
    ofRewrite_iff, and_assoc]

/-- A new record shows in the tree it was written through. -/
theorem recordFields_shown (db : Db) (domain answer : String) :
    showsRecord (treeScope zoneId) ⟨⟨domain, answer, (recordFields (treeScope zoneId) db).1,
      (recordFields (treeScope zoneId) db).2, true⟩, false⟩ = true := by
  cases zoneId with
  | none => rfl
  | some zid => simp [showsRecord, treeScope, recordFields]

/-- With arguments that are not blank, what is refused is a rewrite that any record has. -/
theorem rewriteAdd_refused_iff (h : NonEmpty lower domain answer) {scope : Scope} :
    (∃ e, rewriteAdd lower scope domain answer db = .error e) ↔
      ∃ r ∈ db.records, ofRewrite lower domain answer r = true := by
  have hblank : ¬ (lower (strip domain) = "" ∨ strip answer = "") := by
    rw [not_or]
    exact h
  have hexists : (db.records.any fun r =>
      r.domain = lower (strip domain) && r.answer = strip answer) = true ↔
        ∃ r ∈ db.records, ofRewrite lower domain answer r = true := List.any_eq_true
  rw [← hexists, rewriteAdd]
  simp only [hblank, if_false]
  split
  · next hany => exact iff_of_true ⟨_, rfl⟩ hany
  · next hany =>
      refine iff_of_false ?_ hany
      rintro ⟨_, he⟩
      cases he

/-- What an accepted rewrite adds. -/
theorem rewriteAdd_ok {scope : Scope} {after : Db}
    (h : rewriteAdd lower scope domain answer db = .ok after) :
    after.records = db.records ++ [⟨⟨lower (strip domain), strip answer,
      (recordFields scope db).1, (recordFields scope db).2, true⟩, false⟩] := by
  simp only [rewriteAdd] at h
  split at h
  · cases h
  · split at h
    · cases h
    · rw [← Except.ok.inj h]

/-- What has been added is shown. -/
theorem listed_of_added {after : Db}
    (h : rewriteAdd lower (treeScope zoneId) domain answer db = .ok after) :
    Listed lower (treeScope zoneId) after domain answer := by
  rw [listed_iff, rewriteAdd_ok h]
  refine ⟨_, List.mem_append_right _ (List.mem_singleton_self _), recordFields_shown .., ?_⟩
  rw [ofRewrite_iff, normalRewrite]

/-- What has been deleted is not. -/
theorem not_listed_of_deleted {after : Db} (h : rewriteDelete lower domain answer db = .ok after) :
    ¬ Listed lower (treeScope zoneId) after domain answer := by
  unfold rewriteDelete at h
  split at h
  · cases h
  · obtain rfl := Except.ok.inj h
    rw [listed_iff]
    intro ⟨r, hr, _, hnamed⟩
    have hkept := (List.mem_filter.mp hr).2
    rw [hnamed] at hkept
    cases hkept

/-- **When add, delete and list agree.**  In the tree of the fleet and in that of a zone they
do exactly for the rewrites that no record has, or one that is enabled and of the scope. -/
theorem agree_iff (lower : String → String) (zoneId : Option Nat) (db : Db)
    (domain answer : String) :
    Agree lower (treeScope zoneId) db domain answer ↔
      (NonEmpty lower domain answer →
        ¬ OnlyElsewhere lower (treeScope zoneId) db domain answer) := by
  constructor
  · intro hagree hnonempty ⟨hexists, helsewhere⟩
    have hlisted := (hagree.refuses hnonempty).mp ((rewriteAdd_refused_iff hnonempty).mpr hexists)
    obtain ⟨r, hr, hshown, hnamed⟩ := listed_iff.mp hlisted
    rw [helsewhere r hr hnamed] at hshown
    cases hshown
  · intro hcond
    refine ⟨fun hnonempty => ?_, fun _ after => listed_of_added, fun after => not_listed_of_deleted⟩
    rw [rewriteAdd_refused_iff hnonempty, listed_iff]
    constructor
    · intro hexists
      by_contra hnone
      refine hcond hnonempty ⟨hexists, fun r hr hnamed => ?_⟩
      by_contra hshown
      exact hnone ⟨r, hr, by simpa using hshown, hnamed⟩
    · intro ⟨r, hr, _, hnamed⟩
      exact ⟨r, hr, hnamed⟩

/-- Zone 1 does not show the rewrite of zone 2 and refuses to add it. -/
theorem other_zone_blocks_rewrite :
    ¬ ∀ (db : Db) (zoneId : Option Nat) (domain answer : String),
      Agree String.toLower (treeScope zoneId) db domain answer := by
  intro h
  have hnonempty : NonEmpty String.toLower "nas.lan" "10.0.2.9" := by
    unfold NonEmpty
    decide +kernel
  have hexists : ∃ r ∈ secondZone.records,
      ofRewrite String.toLower "nas.lan" "10.0.2.9" r = true := by
    decide +kernel
  have hlisted := ((h secondZone (some 1) "nas.lan" "10.0.2.9").refuses hnonempty).mp
    ((rewriteAdd_refused_iff hnonempty).mpr hexists)
  obtain ⟨r, hr, hshown, -⟩ := listed_iff.mp hlisted
  obtain rfl := List.mem_singleton.mp hr
  revert hshown
  decide

end AdguardAdmin.Compat
