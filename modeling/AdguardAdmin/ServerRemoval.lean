import AdguardAdmin.Registry
/-!
# Deleting a server

`delete_server` first clears the references it knows of and commits, then deletes
the row and commits again.  Six tables refer to servers and two of them are known
to it; a row of one of the other four makes the second commit fail after the first
has gone through.

`allOrNothing_iff` says for which databases the two commits still amount to one.
-/

namespace AdguardAdmin.Registry

/-- Null a foreign key that names the target. -/
def clearKey (target value : Option Int) : Option Int :=
  match target with
  | none => value
  | some id => if value = some id then none else value

/-- The changes `release_references` commits. -/
def Tables.releaseReferences (t : Tables) (agentId serverId lbId : Option Int) : Tables :=
  { t with
    tokens := t.tokens.map fun k =>
      { k with
        agentId := clearKey agentId k.agentId
        serverId := clearKey serverId k.serverId
        loadBalancerId := clearKey lbId k.loadBalancerId }
    overrides := t.overrides.filter fun o =>
      serverId ≠ some o.serverId ∧ lbId ≠ some o.loadBalancerId }

def Tables.withoutServer (t : Tables) (id : Int) : Tables :=
  { t with servers := t.servers.filter (·.id ≠ id) }

/-- The database afterwards and the answer. -/
def deleteServer (s : Store) (id : Int) : Store × Except HttpError Unit :=
  if s.tables.hasServer id then
    match commit (s.tables.releaseReferences none (some id) none) with
    | .error e => (s, .error e)
    | .ok released =>
        match commit (released.tables.withoutServer id) with
        | .error e => (released, .error e)
        | .ok done => (done, .ok ())
  else (s, .error ⟨404, "Server not found"⟩)

/-- Success leaves no reference to the server, failure leaves everything. -/
def AllOrNothing (s : Store) (id : Int) : Prop :=
  match deleteServer s id with
  | (after, .ok ()) => id ∉ after.tables.serverRefs ∧ after.tables.hasServer id = false
  | (after, .error _) => after = s

/-- No upstream, forward zone, filter list or blocked service is scoped to the
server. -/
def Unscoped (t : Tables) (id : Int) : Prop :=
  ∀ kind, ∀ row ∈ t.rows kind, row.serverId ≠ some id

/-- No token and no balancer override names the server. -/
def NothingToRelease (t : Tables) (id : Int) : Prop :=
  (∀ k ∈ t.tokens, k.serverId ≠ some id) ∧ ∀ o ∈ t.overrides, o.serverId ≠ id

/-! ## What is left after the first commit -/

/-- A key that is left after clearing is another one. -/
theorem clearKey_eq_some {target value : Option Int} {id : Int}
    (h : clearKey target value = some id) : value = some id ∧ target ≠ some id := by
  unfold clearKey at h
  split at h
  · exact ⟨h, by simp⟩
  · split at h
    · cases h
    · rename_i hne
      refine ⟨h, fun heq => hne ?_⟩
      rw [h, heq]

/-- A server is referred to by tokens, overrides and rows. -/
theorem mem_serverRefs {t : Tables} {id : Int} : id ∈ t.serverRefs ↔
    (∃ k ∈ t.tokens, k.serverId = some id) ∨ (∃ o ∈ t.overrides, o.serverId = id) ∨
      ∃ kind, ∃ row ∈ t.rows kind, row.serverId = some id := by
  simp only [Tables.serverRefs, List.mem_append, List.mem_filterMap, List.mem_map, List.mem_flatMap,
    RowKind.mem_all, true_and, or_assoc]

/-- After the first commit only scoped rows refer to the server. -/
theorem mem_serverRefs_released {t : Tables} {id : Int} :
    id ∈ (t.releaseReferences none (some id) none).serverRefs ↔ ¬ Unscoped t id := by
  rw [mem_serverRefs]
  constructor
  · rintro (⟨k, hk, hid⟩ | ⟨o, ho, hid⟩ | ⟨kind, row, hrow, hid⟩)
    · obtain ⟨k', -, rfl⟩ := List.mem_map.mp hk
      exact absurd rfl (clearKey_eq_some hid).2
    · have hkept := (List.mem_filter.mp ho).2
      simp [hid] at hkept
    · exact fun hunscoped => hunscoped kind row hrow hid
  · intro h
    simp only [Unscoped, not_forall, not_not] at h
    obtain ⟨kind, row, hrow, hid⟩ := h
    exact .inr (.inr ⟨kind, row, hrow, hid⟩)

/-- Releasing only takes references away. -/
theorem releaseReferences_valid {t : Tables} (h : t.ForeignKeys)
    (agentId serverId lbId : Option Int) :
    (t.releaseReferences agentId serverId lbId).ForeignKeys where
  zones id hid := by
    refine h.zones id ?_
    simpa [Tables.zoneRefs, Tables.releaseReferences, List.filterMap_map, Function.comp_def] using hid
  servers id hid := by
    refine h.servers id (mem_serverRefs.mpr ?_)
    rcases mem_serverRefs.mp hid with ⟨k, hk, heq⟩ | ⟨o, ho, heq⟩ | hrow
    · obtain ⟨k', hk', rfl⟩ := List.mem_map.mp hk
      exact .inl ⟨k', hk', (clearKey_eq_some heq).1⟩
    · exact .inr (.inl ⟨o, (List.mem_filter.mp ho).1, heq⟩)
    · exact .inr (.inr hrow)
  agents id hid := by
    refine h.agents id ?_
    simp only [Tables.agentRefs, Tables.releaseReferences, List.mem_append, List.mem_filterMap,
      List.mem_map] at hid ⊢
    rcases hid with (hserver | ⟨k, ⟨k', hk', rfl⟩, heq⟩) | hbalancer
    · exact .inl (.inl hserver)
    · exact .inl (.inr ⟨k', hk', (clearKey_eq_some heq).1⟩)
    · exact .inr hbalancer
  balancers id hid := by
    refine h.balancers id ?_
    simp only [Tables.balancerRefs, Tables.releaseReferences, List.mem_append, List.mem_filterMap,
      List.mem_map] at hid ⊢
    rcases hid with ⟨k, ⟨k', hk', rfl⟩, heq⟩ | ⟨o, ho, heq⟩
    · exact .inl ⟨k', hk', (clearKey_eq_some heq).1⟩
    · exact .inr ⟨o, (List.mem_filter.mp ho).1, heq⟩

/-- Removing a server leaves exactly the others. -/
theorem hasServer_withoutServer {t : Tables} {id other : Int} :
    (t.withoutServer id).hasServer other = true ↔ t.hasServer other = true ∧ other ≠ id := by
  simp only [Tables.hasServer, Tables.withoutServer, List.any_eq_true, List.mem_filter,
    decide_eq_true_eq]
  constructor
  · rintro ⟨s, ⟨hs, hne⟩, rfl⟩
    exact ⟨⟨s, hs, rfl⟩, hne⟩
  · rintro ⟨⟨s, hs, rfl⟩, hne⟩
    exact ⟨s, ⟨hs, hne⟩, rfl⟩

/-- Deleting the row is allowed exactly when nothing refers to it any more. -/
theorem withoutServer_valid_iff {t : Tables} (h : t.ForeignKeys) (id : Int) :
    (t.withoutServer id).ForeignKeys ↔ id ∉ t.serverRefs := by
  constructor
  · intro hvalid hid
    exact (hasServer_withoutServer.mp (hvalid.servers id hid)).2 rfl
  · intro hid
    refine ⟨fun z hz => h.zones z ?_, fun s hs => ?_, fun a ha => h.agents a ?_, h.balancers⟩
    · simp only [Tables.zoneRefs, Tables.withoutServer, List.mem_append, List.mem_filterMap,
        List.mem_filter] at hz ⊢
      rcases hz with ((⟨s, ⟨hs, -⟩, heq⟩ | hz) | hz) | hz
      · exact .inl (.inl (.inl ⟨s, hs, heq⟩))
      · exact .inl (.inl (.inr hz))
      · exact .inl (.inr hz)
      · exact .inr hz
    · have hrefs : s ∈ t.serverRefs := hs
      refine hasServer_withoutServer.mpr ⟨h.servers s hrefs, ?_⟩
      rintro rfl
      exact hid hrefs
    · simp only [Tables.agentRefs, Tables.withoutServer, List.mem_append, List.mem_filterMap,
        List.mem_filter] at ha ⊢
      rcases ha with (⟨s, ⟨hs, -⟩, heq⟩ | ha) | ha
      · exact .inl (.inl ⟨s, hs, heq⟩)
      · exact .inl (.inr ha)
      · exact .inr ha

/-- The first commit changes nothing exactly when there is nothing to release. -/
theorem releaseReferences_eq_iff {t : Tables} {id : Int} :
    t.releaseReferences none (some id) none = t ↔ NothingToRelease t id := by
  constructor
  · intro h
    have htokens := congrArg Tables.tokens h
    have hoverrides := congrArg Tables.overrides h
    refine ⟨fun k hk heq => ?_, fun o ho heq => ?_⟩
    · rw [← htokens] at hk
      obtain ⟨k', -, rfl⟩ := List.mem_map.mp hk
      exact (clearKey_eq_some heq).2 rfl
    · rw [← hoverrides] at ho
      have hkept := (List.mem_filter.mp ho).2
      simp [heq] at hkept
  · rintro ⟨htokens, hoverrides⟩
    have hsame : (t.tokens.map fun k =>
        { k with
          agentId := clearKey none k.agentId
          serverId := clearKey (some id) k.serverId
          loadBalancerId := clearKey none k.loadBalancerId }) = t.tokens := by
      refine (List.map_congr_left fun k hk => ?_).trans (List.map_id _)
      simp [clearKey, htokens k hk]
    have hkept : (t.overrides.filter fun o =>
        some id ≠ some o.serverId ∧ none ≠ some o.loadBalancerId) = t.overrides := by
      refine List.filter_eq_self.mpr fun o ho => ?_
      have hne : id ≠ o.serverId := fun heq => hoverrides o ho heq.symm
      simp [hne]
    unfold Tables.releaseReferences
    rw [hsame, hkept]

/-! ## The two commits as one -/

/-- What the operation does to a server that exists. -/
theorem deleteServer_of_exists {s : Store} {id : Int} (h : s.tables.hasServer id = true) :
    (Unscoped s.tables id → ∃ after, deleteServer s id = (after, .ok ()) ∧
      after.tables = (s.tables.releaseReferences none (some id) none).withoutServer id) ∧
    (¬ Unscoped s.tables id → ∃ after e, deleteServer s id = (after, .error e) ∧
      after.tables = s.tables.releaseReferences none (some id) none) := by
  have hreleased := releaseReferences_valid s.valid none (some id) none
  have hvalid_iff := withoutServer_valid_iff hreleased id
  rw [mem_serverRefs_released, not_not] at hvalid_iff
  unfold deleteServer
  rw [if_pos h, commit_of_valid hreleased]
  constructor
  · intro hunscoped
    have hvalid := hvalid_iff.mpr hunscoped
    exact ⟨⟨_, hvalid⟩, by simp [commit, hvalid], rfl⟩
  · intro hscoped
    have hinvalid :
        ¬ ((s.tables.releaseReferences none (some id) none).withoutServer id).ForeignKeys :=
      fun hvalid => hscoped (hvalid_iff.mp hvalid)
    exact ⟨⟨_, hreleased⟩, ⟨500, "FOREIGN KEY constraint failed"⟩, by simp [commit, hinvalid], rfl⟩

/-- **Deleting a server is all or nothing, exactly when the first commit cannot be
left alone.**  For every database whose foreign keys hold: the deletion succeeds and
leaves no reference, or fails and leaves the database as it was, if and only if no
row is scoped to the server or nothing is released before the delete. -/
theorem allOrNothing_iff (s : Store) (id : Int) :
    AllOrNothing s id ↔ Unscoped s.tables id ∨ NothingToRelease s.tables id := by
  unfold AllOrNothing
  cases hexists : s.tables.hasServer id with
  | false =>
      have hunscoped : Unscoped s.tables id := by
        intro kind row hrow heq
        have href : id ∈ s.tables.serverRefs := mem_serverRefs.mpr (.inr (.inr ⟨kind, row, hrow, heq⟩))
        rw [s.valid.servers id href] at hexists
        cases hexists
      have hanswer : deleteServer s id = (s, .error ⟨404, "Server not found"⟩) := by
        simp [deleteServer, hexists]
      rw [hanswer]
      exact iff_of_true rfl (.inl hunscoped)
  | true =>
      obtain ⟨hsucceeds, hfails⟩ := deleteServer_of_exists hexists
      by_cases hunscoped : Unscoped s.tables id
      · obtain ⟨after, hanswer, htables⟩ := hsucceeds hunscoped
        rw [hanswer]
        refine iff_of_true ?_ (.inl hunscoped)
        have hrefs : id ∉ (s.tables.releaseReferences none (some id) none).serverRefs :=
          fun hid => mem_serverRefs_released.mp hid hunscoped
        have hgone : ((s.tables.releaseReferences none (some id) none).withoutServer id).hasServer id
            = false := by
          rw [Bool.eq_false_iff]
          exact fun hhas => (hasServer_withoutServer.mp hhas).2 rfl
        dsimp only
        rw [htables]
        exact ⟨hrefs, hgone⟩
      · obtain ⟨after, e, hanswer, htables⟩ := hfails hunscoped
        rw [hanswer]
        constructor
        · rintro rfl
          exact .inr (releaseReferences_eq_iff.mp htables.symm)
        · rintro (h | h)
          · exact absurd h hunscoped
          · exact Store.ext_tables (htables.trans (releaseReferences_eq_iff.mpr h))

/-- A server that a completed token names and an upstream is scoped to. -/
def scopedServer : Store where
  tables :=
    { zones := []
      servers := [⟨1, none, none⟩]
      agents := []
      balancers := []
      overrides := []
      tokens := [⟨1, none, some 1, none, none⟩]
      rows := fun kind => if kind = .upstream then [⟨1, .server, [], some 1, false⟩] else [] }
  valid := by decide

/-- A server may be kept whose token is released already. -/
theorem token_released_server_kept : ¬ ∀ (s : Store) (id : Int), AllOrNothing s id := by
  intro h
  have hscoped : ¬ Unscoped scopedServer.tables 1 := fun hunscoped =>
    hunscoped .upstream ⟨1, .server, [], some 1, false⟩ (by decide) rfl
  obtain ⟨after, e, hanswer, htables⟩ := (deleteServer_of_exists (s := scopedServer) rfl).2 hscoped
  have hunchanged := h scopedServer 1
  unfold AllOrNothing at hunchanged
  rw [hanswer] at hunchanged
  have htokens : scopedServer.tables.tokens = [⟨1, none, none, none, none⟩] := by
    rw [← hunchanged, htables]
    rfl
  revert htokens
  decide

end AdguardAdmin.Registry
