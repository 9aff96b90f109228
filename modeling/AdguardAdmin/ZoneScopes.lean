import AdguardAdmin.RunLaws
import AdguardAdmin.ServerRemoval
/-!
# Scopes and zones

A row scoped to zones carries their ids in a JSON list.  Every create and update
checks the ids it stores, so the lists stay good as long as no zone in one of them
is deleted.  `delete_zone` looks for the zone in the lists of records, upstreams and
forward zones, and not in those of filter lists and blocked services.

`scopes_iff` gives the exact runs in which no list ever names a missing zone; in
those, the id a new zone gets is in no list.
-/

namespace AdguardAdmin.Registry

open RunLaws GoText TableIds

/-! ## Rows with a scope -/

/-- How the messages of a router call its rows. -/
def RowKind.noun : RowKind → String
  | .record => "records"
  | .upstream => "upstreams"
  | .forwardZone => "forward zones"
  | .filterList => "lists"
  | .blockedService => "services"

def RowKind.notFound : RowKind → String
  | .record => "Record not found"
  | .upstream => "Upstream not found"
  | .forwardZone => "Forward zone not found"
  | .filterList => "Filter list not found"
  | .blockedService => "Blocked service not found"

/-- A body that creates a row.  `others` is what the checks on its other columns
answer. -/
structure RowCreate where
  scope : ConfigScope
  zoneIds : List Int
  serverId : Option Int
  others : Except HttpError Unit

/-- A body that edits a row: each field can be left out, null or a value. -/
structure RowUpdate where
  scope : Option (Option ConfigScope)
  zoneIds : Option (Option (List Int))
  serverId : Option (Option Int)
  others : Except HttpError Unit

/-- `sorted(set(ids))`. -/
def sortedIds (ids : List Int) : List Int := ids.dedup.insertionSort (· ≤ ·)

@[simp] theorem mem_sortedIds {ids : List Int} {id : Int} : id ∈ sortedIds ids ↔ id ∈ ids := by
  rw [sortedIds, List.mem_insertionSort, List.mem_dedup]

/-- The routers' `_validate_scope`; a null scope passes. -/
def validateScope (t : Tables) (kind : RowKind) (scope : Option ConfigScope)
    (zoneIds : Option (List Int)) (serverId : Option Int) : Except HttpError Unit :=
  match scope with
  | some .zone =>
      match zoneIds.getD [] with
      | [] => .error ⟨400, "zone-scoped " ++ kind.noun ++ " require at least one zone"⟩
      | ids =>
          match ids.find? fun id => !t.hasZone id with
          | some id => .error ⟨400, "zone " ++ toString id ++ " does not exist"⟩
          | none => .ok ()
  | some .server =>
      match serverId with
      | none => .error ⟨400, "server-scoped " ++ kind.noun ++ " require a server_id"⟩
      | some id => if t.hasServer id then .ok () else .error ⟨400, "server_id does not exist"⟩
  | _ => .ok ()

def Tables.setRows (t : Tables) (kind : RowKind) (rows : List ScopedRow) : Tables :=
  { t with rows := Function.update t.rows kind rows }

/-- What the scope column takes: no null, and no server scope for a record. -/
def columnScope (kind : RowKind) : Option ConfigScope → Except HttpError ConfigScope
  | none => .error ⟨500, "NOT NULL constraint failed: scope"⟩
  | some scope => if kind = .record ∧ scope = .server then .error ⟨422, "scope"⟩ else .ok scope

def createRow (s : Store) (kind : RowKind) (payload : RowCreate) : Except HttpError Store := do
  let scope ← columnScope kind (some payload.scope)
  validateScope s.tables kind (some payload.scope) (some payload.zoneIds) payload.serverId
  payload.others
  let row : ScopedRow :=
    { id := nextId ((s.tables.rows kind).map (·.id))
      scope := scope
      zoneIds := if payload.scope = .zone then sortedIds payload.zoneIds else []
      serverId := if payload.scope = .server then payload.serverId else none
      managed := false }
  commit (s.tables.setRows kind (s.tables.rows kind ++ [row]))

/-- The row an edit leaves. -/
def editedRow (t : Tables) (kind : RowKind) (row : ScopedRow) (data : RowUpdate) :
    Except HttpError ScopedRow := do
  let newScope := data.scope.getD (some row.scope)
  let newZones := data.zoneIds.getD (some row.zoneIds)
  let newServer := data.serverId.getD row.serverId
  validateScope t kind newScope newZones newServer
  data.others
  let scope ← columnScope kind newScope
  return { row with
    scope := scope
    zoneIds :=
      if scope = .zone then
        match data.zoneIds with
        | some ids => sortedIds (ids.getD [])
        | none => row.zoneIds
      else []
    serverId := if scope = .server then newServer else none }

def replaceRow (rows : List ScopedRow) (new : ScopedRow) : List ScopedRow :=
  rows.map fun row => if row.id = new.id then new else row

def updateRow (s : Store) (kind : RowKind) (id : Int) (data : RowUpdate) : Except HttpError Store :=
  match (s.tables.rows kind).find? (·.id = id) with
  | none => .error ⟨404, kind.notFound⟩
  | some row =>
      if row.managed then .error ⟨409, "This record is auto-managed from the servers list"⟩
      else do
        let new ← editedRow s.tables kind row data
        commit (s.tables.setRows kind (replaceRow (s.tables.rows kind) new))

def deleteRow (s : Store) (kind : RowKind) (id : Int) : Except HttpError Store :=
  match (s.tables.rows kind).find? (·.id = id) with
  | none => .error ⟨404, kind.notFound⟩
  | some row =>
      if row.managed then
        .error ⟨409, "This record is auto-managed; remove the server instead"⟩
      else commit (s.tables.setRows kind ((s.tables.rows kind).filter (·.id ≠ id)))

/-- The reconcile loop's own record of a server: global and managed. -/
def registerRecord (s : Store) : Except HttpError Store :=
  let row : ScopedRow :=
    ⟨nextId ((s.tables.rows .record).map (·.id)), .global, [], none, true⟩
  commit (s.tables.setRows .record (s.tables.rows .record ++ [row]))

/-- The reconcile loop drops a managed record whose server is gone. -/
def unregisterRecord (s : Store) (id : Int) : Except HttpError Store :=
  commit (s.tables.setRows .record
    ((s.tables.rows .record).filter fun row => ¬(row.managed ∧ row.id = id)))

/-! ## Zones and servers -/

variable (slugify : String → String)

/-- `payload.slug or payload.name`. -/
def slugSource (name : String) : Option String → String
  | some slug => if slug = "" then name else slug
  | none => name

def createZone (s : Store) (name : String) (slug : Option String) : Except HttpError Store :=
  let zone : ZoneRow :=
    ⟨nextId (s.tables.zones.map (·.id)), name, slugify (slugSource name slug)⟩
  if s.tables.zones.any fun z => z.name = name ∨ z.slug = zone.slug then
    .error ⟨409, "Zone name or slug already exists"⟩
  else commit { s.tables with zones := s.tables.zones ++ [zone] }

/-- `others` is what the checks on the other columns answer. -/
def updateZone (s : Store) (id : Int) (name slug : Option String) (others : Except HttpError Unit) :
    Except HttpError Store :=
  if s.tables.hasZone id then do
    others
    commit { s.tables with
      zones := s.tables.zones.map fun z =>
        if z.id = id then
          { z with
            name := name.getD z.name
            slug := match slug with
              | some text => if text = "" then text else slugify text
              | none => z.slug }
        else z }
  else .error ⟨404, "Zone not found"⟩

/-- `_zone_member_count`, as far as it is zero or not. -/
def Tables.zoneHasMember (t : Tables) (kind : RowKind) (id : Int) : Bool :=
  (t.rows kind).any fun row => id ∈ row.zoneIds

def Tables.withoutZone (t : Tables) (id : Int) : Tables :=
  { t with zones := t.zones.filter (·.id ≠ id) }

def deleteZone (s : Store) (id : Int) : Except HttpError Store :=
  if s.tables.hasZone id = false then .error ⟨404, "Zone not found"⟩
  else if s.tables.servers.any (·.zoneId = some id) then
    .error ⟨400, "Zone has servers; reassign or remove them first"⟩
  else if s.tables.balancers.any (·.zoneId = some id) then
    .error ⟨400, "Zone has load balancers; reassign or remove them first"⟩
  else if s.tables.zoneHasMember .record id then
    .error ⟨400, "Zone has DNS records; remove them first"⟩
  else if s.tables.zoneHasMember .upstream id ∨ s.tables.zoneHasMember .forwardZone id then
    .error ⟨400, "Zone has DNS settings; remove them first"⟩
  else commit (s.tables.withoutZone id)

/-- `_validate_zone` of the servers' router. -/
def validateZone (t : Tables) (zoneId : Option Int) : Except HttpError Unit :=
  match zoneId with
  | none => .ok ()
  | some id => if t.hasZone id then .ok () else .error ⟨400, "zone_id does not exist"⟩

def createServer (s : Store) (zoneId : Option Int) (others : Except HttpError Unit) :
    Except HttpError Store := do
  validateZone s.tables zoneId
  others
  commit { s.tables with
    servers := s.tables.servers ++ [⟨nextId (s.tables.servers.map (·.id)), zoneId, none⟩] }

def updateServer (s : Store) (id : Int) (zoneId : Option (Option Int))
    (others : Except HttpError Unit) : Except HttpError Store :=
  if s.tables.hasServer id then do
    validateZone s.tables (zoneId.getD none)
    others
    commit { s.tables with
      servers := s.tables.servers.map fun v =>
        if v.id = id then { v with zoneId := zoneId.getD v.zoneId } else v }
  else .error ⟨404, "Server not found"⟩

/-! ## Runs -/

inductive Op where
  | createZone (name : String) (slug : Option String)
  | updateZone (id : Int) (name slug : Option String) (others : Except HttpError Unit)
  | deleteZone (id : Int)
  | createServer (zoneId : Option Int) (others : Except HttpError Unit)
  | updateServer (id : Int) (zoneId : Option (Option Int)) (others : Except HttpError Unit)
  | deleteServer (id : Int)
  | createRow (kind : RowKind) (payload : RowCreate)
  | updateRow (kind : RowKind) (id : Int) (data : RowUpdate)
  | deleteRow (kind : RowKind) (id : Int)
  | registerRecord
  | unregisterRecord (id : Int)
  /-- Anything else the control plane does to hosts, balancers and tokens. -/
  | others (servers : List ServerRow) (agents : List AgentRow) (balancers : List BalancerRow)
      (overrides : List OverrideRow) (tokens : List TokenRow)

/-- A refused request leaves the database alone. -/
def orKeep (s : Store) : Except HttpError Store → Store
  | .ok after => after
  | .error _ => s

def apply (s : Store) : Op → Store
  | .createZone name slug => orKeep s (createZone slugify s name slug)
  | .updateZone id name slug others => orKeep s (updateZone slugify s id name slug others)
  | .deleteZone id => orKeep s (deleteZone s id)
  | .createServer zoneId others => orKeep s (createServer s zoneId others)
  | .updateServer id zoneId others => orKeep s (updateServer s id zoneId others)
  | .deleteServer id => (deleteServer s id).1
  | .createRow kind payload => orKeep s (createRow s kind payload)
  | .updateRow kind id data => orKeep s (updateRow s kind id data)
  | .deleteRow kind id => orKeep s (deleteRow s kind id)
  | .registerRecord => orKeep s (registerRecord s)
  | .unregisterRecord id => orKeep s (unregisterRecord s id)
  | .others servers agents balancers overrides tokens =>
      orKeep s (commit { s.tables with
        servers := servers, agents := agents, balancers := balancers, overrides := overrides,
        tokens := tokens })

/-! ## Scopes that name a missing zone -/

/-- Every id in the list of any row names an existing zone. -/
def ScopesExist (t : Tables) : Prop :=
  ∀ kind, ∀ row ∈ t.rows kind, ∀ id ∈ row.zoneIds, t.hasZone id = true

/-- A zone that is about to be deleted, none of the checks or foreign keys standing
in the way, is in no list of a filter list or a blocked service. -/
def DeletesUnnamed (t : Tables) (id : Int) : Prop :=
  t.hasZone id = true → id ∉ t.zoneRefs → t.zoneHasMember .record id = false →
    t.zoneHasMember .upstream id = false → t.zoneHasMember .forwardZone id = false →
      t.zoneHasMember .filterList id = false ∧ t.zoneHasMember .blockedService id = false

/-- Wherever the lists name existing zones, every row a request stores does too. -/
theorem validateScope_ok {t : Tables} {kind : RowKind} {zoneIds : Option (List Int)}
    {serverId : Option Int} (h : validateScope t kind (some .zone) zoneIds serverId = .ok ()) :
    ∀ id ∈ zoneIds.getD [], t.hasZone id = true := by
  intro id hid
  unfold validateScope at h
  dsimp only at h
  split at h
  · rename_i hnil
    rw [hnil] at hid
    cases hid
  · split at h
    · cases h
    · rename_i hfind
      have hzone := List.find?_eq_none.mp hfind id hid
      simpa using hzone

/-- A scope that is stored is the one that was given. -/
theorem columnScope_ok {kind : RowKind} {value : Option ConfigScope} {scope : ConfigScope}
    (h : columnScope kind value = .ok scope) : value = some scope := by
  unfold columnScope at h
  split at h
  · cases h
  · split at h
    · cases h
    · exact congrArg some (Except.ok.inj h)

/-- A row that is created names zones that exist. -/
theorem createRow_ok {s after : Store} {kind : RowKind} {payload : RowCreate}
    (h : createRow s kind payload = .ok after) :
    ∃ row : ScopedRow, (∀ id ∈ row.zoneIds, s.tables.hasZone id = true) ∧
      after.tables = s.tables.setRows kind (s.tables.rows kind ++ [row]) := by
  simp only [createRow, bind_ok] at h
  obtain ⟨scope, hcolumn, ⟨⟩, hscope, ⟨⟩, -, hcommit⟩ := h
  refine ⟨_, ?_, commit_ok hcommit⟩
  obtain rfl := Option.some.inj (columnScope_ok hcolumn)
  intro id hid
  dsimp only at hid
  split at hid
  · rename_i hzone
    rw [hzone] at hscope
    exact validateScope_ok hscope id (mem_sortedIds.mp hid)
  · cases hid

/-- An edited row names only zones that are there. -/
theorem editedRow_ok {t : Tables} {kind : RowKind} {row new : ScopedRow} {data : RowUpdate}
    (h : editedRow t kind row data = .ok new) :
    ∀ id ∈ new.zoneIds, t.hasZone id = true := by
  simp only [editedRow, bind_ok, pure_ok] at h
  obtain ⟨⟨⟩, hscope, ⟨⟩, -, scope, hcolumn, rfl⟩ := h
  rw [columnScope_ok hcolumn] at hscope
  intro id hid
  dsimp only at hid
  split at hid
  · rename_i hzone
    subst hzone
    refine validateScope_ok hscope id ?_
    cases hids : data.zoneIds with
    | none => simpa [hids] using hid
    | some ids => simpa [hids] using hid
  · cases hid

/-- An update replaces a row by one whose zones exist. -/
theorem updateRow_ok {s after : Store} {kind : RowKind} {id : Int} {data : RowUpdate}
    (h : updateRow s kind id data = .ok after) :
    ∃ new : ScopedRow, (∀ id ∈ new.zoneIds, s.tables.hasZone id = true) ∧
      after.tables = s.tables.setRows kind (replaceRow (s.tables.rows kind) new) := by
  unfold updateRow at h
  split at h
  · cases h
  · split at h
    · cases h
    · obtain ⟨new, hedited, hcommit⟩ := bind_ok.mp h
      exact ⟨new, editedRow_ok hedited, commit_ok hcommit⟩

/-- A row that is deleted is gone. -/
theorem deleteRow_ok {s after : Store} {kind : RowKind} {id : Int}
    (h : deleteRow s kind id = .ok after) :
    after.tables = s.tables.setRows kind ((s.tables.rows kind).filter (·.id ≠ id)) := by
  unfold deleteRow at h
  split at h
  · cases h
  · split at h
    · cases h
    · exact commit_ok h

/-! ## What each operation does to scopes and zones -/

namespace ScopesExist

variable {t t' : Tables}

/-- No new rows, and no fewer zones. -/
theorem weaken (h : ScopesExist t) (hrows : ∀ kind, ∀ row ∈ t'.rows kind, row ∈ t.rows kind)
    (hzones : ∀ id, t.hasZone id = true → t'.hasZone id = true) : ScopesExist t' :=
  fun kind row hrow id hid => hzones id (h kind row (hrows kind row hrow) id hid)

/-- The rows of one table change, to old ones and ones that name existing zones. -/
theorem setRows (h : ScopesExist t) (kind : RowKind) {rows : List ScopedRow}
    (hrows : ∀ row ∈ rows, row ∈ t.rows kind ∨ ∀ id ∈ row.zoneIds, t.hasZone id = true) :
    ScopesExist (t.setRows kind rows) := by
  intro other row hrow id hid
  by_cases hkind : other = kind
  · subst hkind
    simp only [Tables.setRows, Function.update_self] at hrow
    rcases hrows row hrow with hold | hnamed
    · exact h other row hold id hid
    · exact hnamed id hid
  · simp only [Tables.setRows, Function.update_of_ne hkind] at hrow
    exact h other row hrow id hid

/-- A new row whose zones exist keeps the scopes. -/
theorem addRow (h : ScopesExist t) (kind : RowKind) {new : ScopedRow}
    (hnew : ∀ id ∈ new.zoneIds, t.hasZone id = true) :
    ScopesExist (t.setRows kind (t.rows kind ++ [new])) := by
  refine h.setRows kind fun row hrow => ?_
  rcases List.mem_append.mp hrow with hold | hlast
  · exact .inl hold
  · obtain rfl := List.mem_singleton.mp hlast
    exact .inr hnew

/-- Replacing a row by one whose zones are there keeps every scope existing. -/
theorem replaceRow (h : ScopesExist t) (kind : RowKind) {new : ScopedRow}
    (hnew : ∀ id ∈ new.zoneIds, t.hasZone id = true) :
    ScopesExist (t.setRows kind (Registry.replaceRow (t.rows kind) new)) := by
  refine h.setRows kind fun row hrow => ?_
  obtain ⟨old, hold, heq⟩ := List.mem_map.mp hrow
  split at heq
  · subst heq
    exact .inr hnew
  · subst heq
    exact .inl hold

theorem dropRows (h : ScopesExist t) (kind : RowKind) (stays : ScopedRow → Bool) :
    ScopesExist (t.setRows kind ((t.rows kind).filter stays)) :=
  h.setRows kind fun _ hrow => .inl (List.mem_filter.mp hrow).1

end ScopesExist

/-- A refused request leaves the store as it was. -/
theorem orKeep_of {P : Store → Prop} {s : Store} {answer : Except HttpError Store} (hs : P s)
    (h : ∀ after, answer = .ok after → P after) : P (orKeep s answer) := by
  cases answer with
  | error e => exact hs
  | ok after => exact h after rfl

/-- A new zone takes none away. -/
theorem hasZone_append {t : Tables} {zone : ZoneRow} {id : Int} (h : t.hasZone id = true) :
    { t with zones := t.zones ++ [zone] }.hasZone id = true := by
  simp only [Tables.hasZone, List.any_append] at h ⊢
  simp [h]

theorem hasZone_map {t : Tables} {edit : ZoneRow → ZoneRow} (hid : ∀ z, (edit z).id = z.id)
    {id : Int} (h : t.hasZone id = true) :
    { t with zones := t.zones.map edit }.hasZone id = true := by
  simpa [Tables.hasZone, List.any_map, Function.comp_def, hid] using h

/-- A deleted zone is the one that is gone. -/
theorem hasZone_withoutZone {t : Tables} {id other : Int} :
    (t.withoutZone id).hasZone other = true ↔ t.hasZone other = true ∧ other ≠ id := by
  simp only [Tables.hasZone, Tables.withoutZone, List.any_eq_true, List.mem_filter,
    decide_eq_true_eq]
  constructor
  · rintro ⟨z, ⟨hz, hne⟩, rfl⟩
    exact ⟨⟨z, hz, rfl⟩, hne⟩
  · rintro ⟨⟨z, hz, rfl⟩, hne⟩
    exact ⟨z, ⟨hz, hne⟩, rfl⟩

/-- Foreign keys hold after a deletion exactly when nothing refers to the zone. -/
theorem withoutZone_valid_iff {t : Tables} (h : t.ForeignKeys) (id : Int) :
    (t.withoutZone id).ForeignKeys ↔ id ∉ t.zoneRefs := by
  constructor
  · intro hvalid hid
    exact (hasZone_withoutZone.mp (hvalid.zones id hid)).2 rfl
  · intro hid
    refine ⟨fun z hz => ?_, h.servers, h.agents, h.balancers⟩
    have hrefs : z ∈ t.zoneRefs := hz
    refine hasZone_withoutZone.mpr ⟨h.zones z hrefs, ?_⟩
    rintro rfl
    exact hid hrefs

/-- What has to hold for `delete_zone` to go through. -/
structure Deletable (t : Tables) (id : Int) : Prop where
  zone : t.hasZone id = true
  refs : id ∉ t.zoneRefs
  records : t.zoneHasMember .record id = false
  upstreams : t.zoneHasMember .upstream id = false
  forwardZones : t.zoneHasMember .forwardZone id = false

/-- A zone is deleted exactly when it may be. -/
theorem deleteZone_ok_iff {s after : Store} {id : Int} :
    deleteZone s id = .ok after ↔
      Deletable s.tables id ∧ after.tables = s.tables.withoutZone id := by
  constructor
  · intro h
    unfold deleteZone at h
    split_ifs at h with hzone hservers hbalancers hrecords hsettings
    have htables := commit_ok h
    have hvalid : (s.tables.withoutZone id).ForeignKeys := htables ▸ after.valid
    refine ⟨⟨?_, (withoutZone_valid_iff s.valid id).mp hvalid, ?_, ?_, ?_⟩, htables⟩
    · simpa using hzone
    · simpa using hrecords
    · simpa using fun hup => hsettings (.inl hup)
    · simpa using fun hfwd => hsettings (.inr hfwd)
  · rintro ⟨h, htables⟩
    have hservers : s.tables.servers.any (·.zoneId = some id) = false := by
      refine Bool.eq_false_iff.mpr fun hany => h.refs ?_
      obtain ⟨v, hv, hzone⟩ := List.any_eq_true.mp hany
      have hmem : id ∈ s.tables.servers.filterMap (·.zoneId) :=
        List.mem_filterMap.mpr ⟨v, hv, of_decide_eq_true hzone⟩
      simp [Tables.zoneRefs, hmem]
    have hbalancers : s.tables.balancers.any (·.zoneId = some id) = false := by
      refine Bool.eq_false_iff.mpr fun hany => h.refs ?_
      obtain ⟨v, hv, hzone⟩ := List.any_eq_true.mp hany
      have hmem : id ∈ s.tables.balancers.filterMap (·.zoneId) :=
        List.mem_filterMap.mpr ⟨v, hv, of_decide_eq_true hzone⟩
      simp [Tables.zoneRefs, hmem]
    have hcommit := commit_of_valid ((withoutZone_valid_iff s.valid id).mpr h.refs)
    unfold deleteZone
    rw [h.zone, hservers, hbalancers, h.records, h.upstreams, h.forwardZones, hcommit]
    simpa using (Store.ext_tables htables).symm

/-- A zone has no member in a table exactly when no row names it. -/
theorem zoneHasMember_eq_false {t : Tables} {kind : RowKind} {id : Int} :
    t.zoneHasMember kind id = false ↔ ∀ row ∈ t.rows kind, id ∉ row.zoneIds := by
  simp [Tables.zoneHasMember]

/-- Deleting a zone keeps the lists good exactly when none of them names it. -/
theorem scopesExist_deleteZone_iff {s : Store} (h : ScopesExist s.tables) (id : Int) :
    ScopesExist (orKeep s (deleteZone s id)).tables ↔ DeletesUnnamed s.tables id := by
  by_cases hdel : Deletable s.tables id
  · have hvalid := (withoutZone_valid_iff s.valid id).mpr hdel.refs
    have hanswer : deleteZone s id = .ok ⟨_, hvalid⟩ := deleteZone_ok_iff.mpr ⟨hdel, rfl⟩
    rw [hanswer]
    constructor
    · intro hafter _ _ _ _ _
      have hunnamed : ∀ kind, s.tables.zoneHasMember kind id = false := fun kind =>
        zoneHasMember_eq_false.mpr fun row hrow hid =>
          (hasZone_withoutZone.mp (hafter kind row hrow id hid)).2 rfl
      exact ⟨hunnamed .filterList, hunnamed .blockedService⟩
    · intro hunnamed kind row hrow other hother
      obtain ⟨hlists, hservices⟩ :=
        hunnamed hdel.zone hdel.refs hdel.records hdel.upstreams hdel.forwardZones
      have hnone : s.tables.zoneHasMember kind id = false := by
        cases kind with
        | record => exact hdel.records
        | upstream => exact hdel.upstreams
        | forwardZone => exact hdel.forwardZones
        | filterList => exact hlists
        | blockedService => exact hservices
      refine hasZone_withoutZone.mpr ⟨h kind row hrow other hother, ?_⟩
      rintro rfl
      exact zoneHasMember_eq_false.mp hnone row hrow hother
  · have hkept : orKeep s (deleteZone s id) = s := by
      cases hanswer : deleteZone s id with
      | error e => rfl
      | ok after => exact absurd (deleteZone_ok_iff.mp hanswer).1 hdel
    rw [hkept]
    exact iff_of_true h fun hzone hrefs hrecords hupstreams hforward =>
      absurd ⟨hzone, hrefs, hrecords, hupstreams, hforward⟩ hdel

/-- Creating a zone adds one under the next id. -/
theorem createZone_ok {s after : Store} {name : String} {slug : Option String}
    (h : createZone slugify s name slug = .ok after) :
    ∃ zone : ZoneRow, zone.id = nextId (s.tables.zones.map (·.id)) ∧
      after.tables = { s.tables with zones := s.tables.zones ++ [zone] } := by
  unfold createZone at h
  dsimp only at h
  split at h
  · cases h
  · exact ⟨_, rfl, commit_ok h⟩

/-- An update of a zone keeps its id. -/
theorem updateZone_ok {s after : Store} {id : Int} {name slug : Option String}
    {others : Except HttpError Unit} (h : updateZone slugify s id name slug others = .ok after) :
    ∃ edit : ZoneRow → ZoneRow, (∀ z, (edit z).id = z.id) ∧
      after.tables = { s.tables with zones := s.tables.zones.map edit } := by
  unfold updateZone at h
  split at h
  · obtain ⟨⟨⟩, -, hcommit⟩ := bind_ok.mp h
    refine ⟨_, fun z => ?_, commit_ok hcommit⟩
    split <;> rfl
  · cases h

/-- A new server changes no row and no zone. -/
theorem createServer_ok {s after : Store} {zoneId : Option Int} {others : Except HttpError Unit}
    (h : createServer s zoneId others = .ok after) :
    ∃ servers, after.tables = { s.tables with servers := servers } := by
  simp only [createServer, bind_ok] at h
  obtain ⟨⟨⟩, -, ⟨⟩, -, hcommit⟩ := h
  exact ⟨_, commit_ok hcommit⟩

/-- A changed server leaves the other tables as they were. -/
theorem updateServer_ok {s after : Store} {id : Int} {zoneId : Option (Option Int)}
    {others : Except HttpError Unit} (h : updateServer s id zoneId others = .ok after) :
    ∃ servers, after.tables = { s.tables with servers := servers } := by
  unfold updateServer at h
  split at h
  · simp only [bind_ok] at h
    obtain ⟨⟨⟩, -, ⟨⟩, -, hcommit⟩ := h
    exact ⟨_, commit_ok hcommit⟩
  · cases h

/-- Every other operation keeps the lists good. -/
theorem scopesExist_apply {s : Store} (h : ScopesExist s.tables) (op : Op)
    (hop : ∀ id, op ≠ .deleteZone id) : ScopesExist (apply slugify s op).tables := by
  have horKeep : ∀ answer : Except HttpError Store,
      (∀ after, answer = .ok after → ScopesExist after.tables) →
        ScopesExist (orKeep s answer).tables :=
    fun answer => orKeep_of (P := fun s => ScopesExist s.tables) h
  cases op with
  | deleteZone id => exact absurd rfl (hop id)
  | createZone name slug =>
      refine horKeep _ fun after hafter => ?_
      obtain ⟨zone, -, htables⟩ := createZone_ok slugify hafter
      rw [htables]
      exact h.weaken (fun _ _ hrow => hrow) fun _ hzone => hasZone_append hzone
  | updateZone id name slug others =>
      refine horKeep _ fun after hafter => ?_
      obtain ⟨edit, hid, htables⟩ := updateZone_ok slugify hafter
      rw [htables]
      exact h.weaken (fun _ _ hrow => hrow) fun _ hzone => hasZone_map hid hzone
  | createServer zoneId others =>
      refine horKeep _ fun after hafter => ?_
      obtain ⟨servers, htables⟩ := createServer_ok hafter
      rw [htables]
      exact h.weaken (fun _ _ hrow => hrow) fun _ hzone => hzone
  | updateServer id zoneId others =>
      refine horKeep _ fun after hafter => ?_
      obtain ⟨servers, htables⟩ := updateServer_ok hafter
      rw [htables]
      exact h.weaken (fun _ _ hrow => hrow) fun _ hzone => hzone
  | deleteServer id =>
      cases hexists : s.tables.hasServer id with
      | false => simpa [apply, deleteServer, hexists] using h
      | true =>
          obtain ⟨hsucceeds, hfails⟩ := deleteServer_of_exists hexists
          by_cases hunscoped : Unscoped s.tables id
          · obtain ⟨after, hanswer, htables⟩ := hsucceeds hunscoped
            simp only [apply, hanswer, htables]
            exact h.weaken (fun _ _ hrow => hrow) fun _ hzone => hzone
          · obtain ⟨after, e, hanswer, htables⟩ := hfails hunscoped
            simp only [apply, hanswer, htables]
            exact h.weaken (fun _ _ hrow => hrow) fun _ hzone => hzone
  | createRow kind payload =>
      refine horKeep _ fun after hafter => ?_
      obtain ⟨new, hnamed, htables⟩ := createRow_ok hafter
      rw [htables]
      exact h.addRow kind hnamed
  | updateRow kind id data =>
      refine horKeep _ fun after hafter => ?_
      obtain ⟨new, hnamed, htables⟩ := updateRow_ok hafter
      rw [htables]
      exact h.replaceRow kind hnamed
  | deleteRow kind id =>
      refine horKeep _ fun after hafter => ?_
      rw [deleteRow_ok hafter]
      exact h.dropRows kind _
  | registerRecord =>
      refine horKeep _ fun after hafter => ?_
      rw [commit_ok hafter]
      exact h.addRow .record fun id hid => by cases hid
  | unregisterRecord id =>
      refine horKeep _ fun after hafter => ?_
      rw [commit_ok hafter]
      exact h.dropRows .record _
  | others servers agents balancers overrides tokens =>
      refine horKeep _ fun after hafter => ?_
      rw [commit_ok hafter]
      exact h.weaken (fun _ _ hrow => hrow) fun _ hzone => hzone

/-! ## Whole runs -/

/-- After the operation every list names existing zones, and if it creates a zone,
no row that is already there names the id the zone gets. -/
def ScopesSound (s : Store) (op : Op) : Prop :=
  ScopesExist (apply slugify s op).tables ∧
    match op with
    | .createZone .. =>
        ∀ kind, s.tables.zoneHasMember kind (nextId (s.tables.zones.map (·.id))) = false
    | _ => True

/-- Zones are deleted only when nothing that `delete_zone` overlooks names them. -/
def NothingOverlooked (s : Store) : Op → Prop
  | .deleteZone id => DeletesUnnamed s.tables id
  | _ => True

/-- The next id is named by no row. -/
theorem nextId_unnamed {t : Tables} (h : ScopesExist t) (kind : RowKind) :
    t.zoneHasMember kind (nextId (t.zones.map (·.id))) = false := by
  refine zoneHasMember_eq_false.mpr fun row hrow hid => nextId_not_mem (t.zones.map (·.id)) ?_
  obtain ⟨zone, hzone, heq⟩ := List.any_eq_true.mp (h kind row hrow _ hid)
  exact List.mem_map.mpr ⟨zone, hzone, of_decide_eq_true heq⟩

/-- A step keeps scopes sound exactly when it overlooks nothing. -/
theorem scopesSound_step_iff (s : Store) (op : Op) (h : ScopesExist s.tables) :
    ScopesSound slugify s op ↔ NothingOverlooked s op := by
  cases op with
  | deleteZone id =>
      simp only [ScopesSound, NothingOverlooked, and_true]
      exact scopesExist_deleteZone_iff h id
  | createZone name slug =>
      refine iff_of_true ⟨?_, nextId_unnamed h⟩ trivial
      exact scopesExist_apply slugify h _ (by simp)
  | _ =>
      refine iff_of_true ⟨?_, trivial⟩ trivial
      exact scopesExist_apply slugify h _ (by simp)

/-- The database of a first start. -/
def emptyStore : Store where
  tables := ⟨[], [], [], [], [], [], fun _ => []⟩
  valid := by decide

/-- **Scopes never dangle, exactly when no deleted zone is named by what
`delete_zone` overlooks.**  Along every run of operations, every id in any row's
list names an existing zone and every new zone gets an id no row names, if and only
if no zone that a filter list or a blocked service names is deleted. -/
theorem scopes_iff (ops : List Op) :
    Along (apply slugify) (ScopesSound slugify) emptyStore ops ↔
      Along (apply slugify) NothingOverlooked emptyStore ops := by
  refine along_congr_of_invariant (apply slugify) (scopesSound_step_iff slugify)
    (fun s op _ hsound => hsound.1) ?_ ops
  intro kind row hrow
  cases hrow

/-- A zone, a filter list for it, and the zone deleted and created again. -/
def zoneComesBack : List Op :=
  [.createZone "home" none,
    .createRow .filterList ⟨.zone, [1], none, .ok ()⟩,
    .deleteZone 1,
    .createZone "guests" none]

/-- A filter list keeps the id of a zone that was deleted. -/
theorem filter_list_dangles :
    ¬ ∀ ops : List Op, Along (apply id) (ScopesSound id) emptyStore ops := by
  intro h
  have hdangles := (h zoneComesBack).2.2.1.1
  have hzone := hdangles .filterList ⟨1, .zone, [1], none, false⟩ (by decide +kernel) 1 (by decide)
  revert hzone
  decide +kernel

end AdguardAdmin.Registry
