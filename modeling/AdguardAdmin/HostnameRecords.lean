import Mathlib.Data.List.Infix
import AdguardAdmin.CompatWrites
import AdguardAdmin.PyAddress
import AdguardAdmin.RunLaws
import AdguardAdmin.TableIds
/-!
# Records for the hostnames of servers

Before each cycle a pass keeps one global record for every hostname that a server is
reached under, with the address it resolves to, so that servers can resolve each other.
These managed records and the records of users are in one table.  The pass registers no
hostname that a user has a global record for, but it does not take back one that it
registered before the user came.

* `single_of_run` — there is never more than one managed record for a name;
* `right_iff` — in exactly which runs every pass leaves the table as it should be.
-/

namespace AdguardAdmin.HostnameRecords

open RunLaws TableIds
open Registry (HttpError)

/-! ## The tables -/

structure Row extends Compat.Record where
  id : Nat
  deriving DecidableEq, Repr

/-- The URLs of the servers, and the records. -/
structure Db where
  servers : List String
  rows : List Row
  keys : (rows.map (·.id)).Nodup

def Db.empty : Db := ⟨[], [], List.nodup_nil⟩

/-- The names that managed records are for, one entry for each of them. -/
def managedDomains (rows : List Row) : List String := (rows.filter (·.managed)).map (·.domain)

/-- The records of users. -/
def userRows (rows : List Row) : List Row := rows.filter (!·.managed)

/-- The names that users have global records for. -/
def userGlobal (rows : List Row) : List String :=
  ((userRows rows).filter (·.scope = .global)).map (·.domain)

/-! ## The pass -/

/-- Python's `str.lower`, and the hostname in a URL as `urlparse` finds it. -/
structure Library where
  lower : String → String
  urlHostname : String → Option String

section Pass

variable (lib : Library)

/-- `_host_from_url`. -/
def hostFromUrl (url : String) : Option String :=
  lib.urlHostname (if "://".toList <:+: url.toList then url else "//" ++ url)

/-- `_is_ip`. -/
def isIp (host : String) : Bool := (PyAddress.ipAddress host.toList).isSome

/-- The hostname a server needs a record for; none if it is given by address. -/
def serverHost (url : String) : Option String :=
  match hostFromUrl lib url with
  | none => none
  | some host => if host = "" ∨ isIp host then none else some (lib.lower host)

def managedHostnames (servers : List String) : List String := servers.filterMap (serverHost lib)

/-- Set a key of a dict. -/
def dictSet (found : List (String × String)) (host ip : String) : List (String × String) :=
  if host ∈ found.map Prod.fst then found.map fun p => if p.1 = host then (host, ip) else p
  else found ++ [(host, ip)]

/-- What the server at a place in the table adds to the names that were resolved. -/
def resolveServer (dns : Nat → Option String) (found : List (String × String))
    (server : String × Nat) : List (String × String) :=
  match serverHost lib server.1, dns server.2 with
  | some host, some ip => dictSet found host ip
  | _, _ => found

/-- The names that resolve, with their addresses; `dns` answers for the servers in turn. -/
def resolved (dns : Nat → Option String) (servers : List String) : List (String × String) :=
  servers.zipIdx.foldl (resolveServer lib dns) []

/-- The managed record of a name, as the pass finds it; the last one wins. -/
def autos (rows : List Row) (domain : String) : Option Row :=
  (rows.filter (·.managed)).reverse.find? (·.domain = domain)

def newRow (rows : List Row) (host ip : String) : Row where
  id := nextId (rows.map (·.id))
  domain := host
  answer := ip
  scope := .global
  zoneIds := []
  enabled := true
  managed := true

/-- The managed record of a name is to say `ip`. -/
def setAnswer (id : Nat) (ip : String) (row : Row) : Row :=
  if row.id = id then { row with answer := ip } else row

/-- One name that was resolved.  `before` is the table that the pass has read. -/
def register (before rows : List Row) (entry : String × String) : List Row :=
  if entry.1 ∈ userGlobal before then rows
  else
    match autos before entry.1 with
    | none => rows ++ [newRow rows entry.1 entry.2]
    | some rec => if rec.answer = entry.2 then rows else rows.map (setAnswer rec.id entry.2)

/-- Drop the records that were read whose hostname is no longer a server. -/
def dropUnused (hosts : List String) (before rows : List Row) : List Row :=
  rows.filter fun row =>
    row.domain ∈ hosts || (autos before row.domain).map (·.id) ≠ some row.id

/-- `reconcile_hostname_records`. -/
def reconcile (dns : Nat → Option String) (servers : List String) (rows : List Row) : List Row :=
  dropUnused (managedHostnames lib servers) rows
    ((resolved lib dns servers).foldl (register rows) rows)

end Pass

/-! ## What users do -/

/-- The fields of a new record; `others` is what the checks of its zones answer. -/
structure RecordCreate where
  domain : String
  answer : String
  scope : RecordScope
  zoneIds : List Nat
  enabled : Bool
  others : Except HttpError Unit

/-- The fields of an edit that are set. -/
structure RecordUpdate where
  domain : Option String
  answer : Option String
  scope : Option RecordScope
  zoneIds : Option (List Nat)
  enabled : Option Bool
  others : Except HttpError Unit

section Users

variable (lower : String → String)

/-- Python's `sorted` of a set of ids. -/
def sortedIds (ids : List Nat) : List Nat := ids.dedup.insertionSort (· ≤ ·)

def createdRow (payload : RecordCreate) (rows : List Row) : Row where
  id := nextId (rows.map (·.id))
  domain := lower (PyText.strip payload.domain)
  answer := PyText.strip payload.answer
  scope := payload.scope
  zoneIds := if payload.scope = .zone then sortedIds payload.zoneIds else []
  enabled := payload.enabled
  managed := false

/-- `create_record`.  An import and the compatible API add records in the same way. -/
def createRecord (payload : RecordCreate) (db : Db) : Except HttpError Db := do
  payload.others
  .ok
    { db with
      rows := db.rows ++ [createdRow lower payload db.rows]
      keys := nodup_append_nextId db.keys rfl }

/-- The record that an edit leaves. -/
def editedRow (data : RecordUpdate) (row : Row) : Row where
  id := row.id
  domain := match data.domain with
    | none => row.domain
    | some domain => if domain = "" then domain else lower (PyText.strip domain)
  answer := match data.answer with
    | none => row.answer
    | some answer => if answer = "" then answer else PyText.strip answer
  scope := data.scope.getD row.scope
  zoneIds :=
    if data.scope.getD row.scope = .global then []
    else (data.zoneIds.map sortedIds).getD row.zoneIds
  enabled := data.enabled.getD row.enabled
  managed := row.managed

/-- `update_record`. -/
def updateRecord (id : Nat) (data : RecordUpdate) (db : Db) : Except HttpError Db :=
  match db.rows.find? (·.id = id) with
  | none => .error ⟨404, "Record not found"⟩
  | some row =>
      if row.managed then .error ⟨409, "This record is auto-managed from the servers list"⟩
      else do
        data.others
        .ok
          { db with
            rows := putRow (·.id) (editedRow lower data row) db.rows
            keys := nodup_putRow db.keys _ }

/-- The records without those that `drop` names. -/
def Db.without (db : Db) (drop : Row → Bool) : Db where
  servers := db.servers
  rows := db.rows.filter (!drop ·)
  keys := nodup_filter db.keys _

/-- `delete_record`. -/
def deleteRecord (id : Nat) (db : Db) : Except HttpError Db :=
  match db.rows.find? (·.id = id) with
  | none => .error ⟨404, "Record not found"⟩
  | some row =>
      if row.managed then
        .error ⟨409, "This record is auto-managed; remove the server instead"⟩
      else .ok (db.without (·.id = id))

/-- `control_rewrite_delete` of the compatible API. -/
def rewriteDelete (domain answer : String) (db : Db) : Except HttpError Db :=
  let named : Row → Bool := fun row =>
    row.domain = lower (PyText.strip domain) && row.answer = PyText.strip answer
  if db.rows.any fun row => named row && row.managed then
    .error ⟨409, "that rewrite is auto-managed from the servers list"⟩
  else .ok (db.without named)

end Users

section Facts

variable {lib : Library} {before rows : List Row}

@[simp] theorem managedDomains_append (first second : List Row) :
    managedDomains (first ++ second) = managedDomains first ++ managedDomains second := by
  simp [managedDomains]

@[simp] theorem userRows_append (first second : List Row) :
    userRows (first ++ second) = userRows first ++ userRows second := by
  simp [userRows]

/-- A managed domain is that of a managed row. -/
theorem mem_managedDomains {domain : String} :
    domain ∈ managedDomains rows ↔ ∃ row ∈ rows, row.managed = true ∧ row.domain = domain := by
  simp [managedDomains, and_assoc]

theorem mem_userRows {row : Row} : row ∈ userRows rows ↔ row ∈ rows ∧ row.managed = false := by
  simp [userRows]

/-- Rows that keep the name they are managed for, or stay a user's. -/
theorem managedDomains_map {edit : Row → Row}
    (hmanaged : ∀ row ∈ rows, (edit row).managed = row.managed)
    (hdomain : ∀ row ∈ rows, row.managed = true → (edit row).domain = row.domain) :
    managedDomains (rows.map edit) = managedDomains rows := by
  rw [managedDomains, List.filter_map, List.map_map]
  have hfilter : rows.filter ((·.managed) ∘ edit) = rows.filter (·.managed) :=
    List.filter_congr hmanaged
  rw [hfilter]
  refine List.map_congr_left fun row hrow => ?_
  obtain ⟨hmem, hrow⟩ := List.mem_filter.mp hrow
  exact hdomain row hmem hrow

/-- Global rows of users are found among the rows of users. -/
theorem userGlobal_congr {after : List Row} (h : userRows after = userRows rows) :
    userGlobal after = userGlobal rows := by
  rw [userGlobal, userGlobal, h]

/-! ## The names that resolve -/

/-- A host that was found again is not put twice. -/
theorem map_fst_dictSet (found : List (String × String)) (host ip : String) :
    (dictSet found host ip).map Prod.fst =
      if host ∈ found.map Prod.fst then found.map Prod.fst else found.map Prod.fst ++ [host] := by
  unfold dictSet
  split
  · rw [List.map_map]
    refine List.map_congr_left fun p _ => ?_
    by_cases hp : p.1 = host <;> simp [hp]
  · simp

/-- Each name is resolved once, and is that of a server. -/
theorem resolved_keys (dns : Nat → Option String) (servers : List String) :
    ((resolved lib dns servers).map Prod.fst).Nodup ∧
      ∀ host ∈ (resolved lib dns servers).map Prod.fst, host ∈ managedHostnames lib servers := by
  have hfold : ∀ (l : List (String × Nat)) (found : List (String × String)),
      (∀ p ∈ l, p.1 ∈ servers) → (found.map Prod.fst).Nodup →
      (∀ host ∈ found.map Prod.fst, host ∈ managedHostnames lib servers) →
      ((l.foldl (resolveServer lib dns) found).map Prod.fst).Nodup ∧
        ∀ host ∈ (l.foldl (resolveServer lib dns) found).map Prod.fst,
          host ∈ managedHostnames lib servers := by
    intro l
    induction l with
    | nil => exact fun _ _ hnodup hhosts => ⟨hnodup, hhosts⟩
    | cons server l ih =>
        intro found hservers hnodup hhosts
        rw [List.forall_mem_cons] at hservers
        rw [List.foldl_cons]
        refine ih _ hservers.2 ?_ ?_
        · unfold resolveServer
          split
          · rw [map_fst_dictSet]
            split
            · exact hnodup
            · rename_i hnew
              exact List.nodup_append_comm.mpr (List.nodup_cons.mpr ⟨hnew, hnodup⟩)
          · exact hnodup
        · unfold resolveServer
          split
          · rename_i host ip hhost _
            have hmem : host ∈ managedHostnames lib servers :=
              List.mem_filterMap.mpr ⟨_, hservers.1, hhost⟩
            rw [map_fst_dictSet]
            split
            · exact hhosts
            · intro other hother
              rcases List.mem_append.mp hother with hold | hnew
              · exact hhosts other hold
              · rw [List.mem_singleton.mp hnew]
                exact hmem
          · exact hhosts
  refine hfold servers.zipIdx [] (fun p hp => ?_) List.nodup_nil (by simp)
  exact List.fst_mem_of_mem_zipIdx hp

/-! ## What a pass does -/

/-- A managed record that is found is there, for its domain. -/
theorem autos_eq_some {domain : String} {row : Row} (h : autos rows domain = some row) :
    row ∈ rows ∧ row.managed = true ∧ row.domain = domain := by
  have hmem := List.mem_of_find?_eq_some h
  rw [List.mem_reverse, List.mem_filter] at hmem
  exact ⟨hmem.1, hmem.2, by simpa using List.find?_some h⟩

/-- No managed record is found exactly for a domain without one. -/
theorem autos_eq_none_iff {domain : String} :
    autos rows domain = none ↔ domain ∉ managedDomains rows := by
  rw [autos, List.find?_eq_none, mem_managedDomains]
  constructor
  · rintro h ⟨row, hrow, hmanaged, hdomain⟩
    exact h row (by simp [hrow, hmanaged]) (by simp [hdomain])
  · intro h row hrow hdomain
    rw [List.mem_reverse, List.mem_filter] at hrow
    exact h ⟨row, hrow.1, hrow.2, by simpa using hdomain⟩

/-- With one managed record for a name, it is the one that is found. -/
theorem autos_eq_self (hsingle : (managedDomains rows).Nodup) {row : Row} (hrow : row ∈ rows)
    (hmanaged : row.managed = true) : autos rows row.domain = some row := by
  cases hfound : autos rows row.domain with
  | none =>
      exact absurd (mem_managedDomains.mpr ⟨row, hrow, hmanaged, rfl⟩)
        (autos_eq_none_iff.mp hfound)
  | some other =>
      obtain ⟨hother, hmanaged', hdomain⟩ := autos_eq_some hfound
      rw [List.inj_on_of_nodup_map hsingle (List.mem_filter.mpr ⟨hother, hmanaged'⟩)
        (List.mem_filter.mpr ⟨hrow, hmanaged⟩) hdomain]

@[simp] theorem setAnswer_id (id : Nat) (ip : String) (row : Row) :
    (setAnswer id ip row).id = row.id := by
  unfold setAnswer
  split <;> rfl

@[simp] theorem setAnswer_domain (id : Nat) (ip : String) (row : Row) :
    (setAnswer id ip row).domain = row.domain := by
  unfold setAnswer
  split <;> rfl

@[simp] theorem setAnswer_managed (id : Nat) (ip : String) (row : Row) :
    (setAnswer id ip row).managed = row.managed := by
  unfold setAnswer
  split <;> rfl

/-- A name that the pass registers: no user has a global record, and no record is managed. -/
def Fresh (before : List Row) (host : String) : Prop :=
  host ∉ userGlobal before ∧ host ∉ managedDomains before

instance (before : List Row) (host : String) : Decidable (Fresh before host) :=
  inferInstanceAs (Decidable (_ ∧ _))

/-- The table after the names in `done` have been registered. -/
structure Registered (before rows : List Row) (done : List String) : Prop where
  keys : (rows.map (·.id)).Nodup
  users : userRows rows = userRows before
  managed : managedDomains rows = managedDomains before ++ done.filter (Fresh before)
  origin : ∀ row ∈ rows, row.managed = true →
    (∃ old ∈ before, old.managed = true ∧ old.id = row.id ∧ old.domain = row.domain) ∨
      row.domain ∈ done

/-- A record of a user is not the one that `autos` finds. -/
theorem Registered.id_ne {done : List String} (h : Registered before rows done)
    (hkeys : (before.map (·.id)).Nodup) {host : String} {rec row : Row}
    (hrec : autos before host = some rec) (hrow : row ∈ userRows rows) : row.id ≠ rec.id := by
  intro hid
  rw [h.users, mem_userRows] at hrow
  obtain ⟨hmem, hmanaged, -⟩ := autos_eq_some hrec
  obtain rfl := List.inj_on_of_nodup_map hkeys hrow.1 hmem hid
  rw [hrow.2] at hmanaged
  cases hmanaged

/-- A host that is not fresh is passed over. -/
theorem Registered.skip {done : List String} (h : Registered before rows done) {host : String}
    (hstale : ¬ Fresh before host) : Registered before rows (done ++ [host]) where
  keys := h.keys
  users := h.users
  managed := by simp [h.managed, hstale]
  origin row hrow hmanaged := by
    refine (h.origin row hrow hmanaged).imp_right fun hdone => ?_
    exact List.mem_append_left _ hdone

/-- Registering one name more keeps what was registered. -/
theorem Registered.register {done : List String} (h : Registered before rows done)
    (hkeys : (before.map (·.id)).Nodup) (entry : String × String) :
    Registered before (register before rows entry) (done ++ [entry.1]) := by
  unfold HostnameRecords.register
  split
  · rename_i hglobal
    exact h.skip fun hfresh => hfresh.1 hglobal
  · rename_i hglobal
    split
    · rename_i hnone
      have hfresh : Fresh before entry.1 := ⟨hglobal, autos_eq_none_iff.mp hnone⟩
      exact
        { keys := nodup_append_nextId h.keys rfl
          users := by simpa [userRows, newRow] using h.users
          managed := by
            rw [managedDomains_append, h.managed]
            simp [managedDomains, newRow, hfresh]
          origin := by
            intro row hrow hmanaged
            rcases List.mem_append.mp hrow with hold | hnew
            · refine (h.origin row hold hmanaged).imp_right fun hdone => ?_
              exact List.mem_append_left _ hdone
            · obtain rfl := List.mem_singleton.mp hnew
              exact .inr (by simp [newRow]) }
    · rename_i rec hrec
      have hstale : ¬ Fresh before entry.1 := fun hfresh => by
        rw [autos_eq_none_iff.mpr hfresh.2] at hrec
        cases hrec
      have hskip := h.skip hstale
      split
      · exact hskip
      · have hsame : ∀ row ∈ userRows rows, setAnswer rec.id entry.2 row = row := fun row hrow =>
          if_neg (h.id_ne hkeys hrec hrow)
        exact
          { keys := nodup_map_edit h.keys (setAnswer_id _ _)
            users := by
              rw [← h.users, userRows, List.filter_map]
              simp only [Function.comp_def, setAnswer_managed]
              exact List.map_congr_left hsame |>.trans (List.map_id _)
            managed := by
              rw [← hskip.managed]
              exact managedDomains_map (fun _ _ => setAnswer_managed _ _ _)
                fun _ _ _ => setAnswer_domain _ _ _
            origin := by
              intro row hrow hmanaged
              obtain ⟨old, hold, rfl⟩ := List.mem_map.mp hrow
              simp only [setAnswer_managed, setAnswer_id, setAnswer_domain] at hmanaged ⊢
              exact hskip.origin old hold hmanaged }

/-- All names that were resolved are registered. -/
theorem registered_foldl (hkeys : (before.map (·.id)).Nodup) (entries : List (String × String)) :
    Registered before (entries.foldl (register before) before) (entries.map Prod.fst) := by
  induction entries using List.reverseRecOn with
  | nil =>
      exact
        { keys := hkeys
          users := rfl
          managed := by simp
          origin := fun row hrow hmanaged => .inl ⟨row, hrow, hmanaged, rfl, rfl⟩ }
  | append_singleton entries entry ih =>
      rw [List.foldl_append, List.map_append]
      exact ih.register hkeys entry

section Reconcile

variable {dns : Nat → Option String} {servers : List String}

/-- A pass registers each host that resolves. -/
theorem registered (hkeys : (rows.map (·.id)).Nodup) :
    Registered rows ((resolved lib dns servers).foldl (register rows) rows)
      ((resolved lib dns servers).map Prod.fst) :=
  registered_foldl hkeys _

/-- A reconcile keeps the ids of the records distinct. -/
theorem reconcile_keys (hkeys : (rows.map (·.id)).Nodup) :
    ((reconcile lib dns servers rows).map (·.id)).Nodup :=
  nodup_filter (registered hkeys).keys _

/-- The pass leaves the records of users alone. -/
theorem userRows_reconcile (hkeys : (rows.map (·.id)).Nodup) :
    userRows (reconcile lib dns servers rows) = userRows rows := by
  have h : Registered rows ((resolved lib dns servers).foldl (register rows) rows)
      ((resolved lib dns servers).map Prod.fst) := registered hkeys
  refine Eq.trans ?_ h.users
  rw [reconcile, dropUnused, userRows, List.filter_filter]
  refine List.filter_congr fun row hrow => ?_
  cases hmanaged : row.managed with
  | true => rfl
  | false =>
      -- a record of a user is not dropped
      have hkept : (autos rows row.domain).map (·.id) ≠ some row.id := by
        intro hsome
        obtain ⟨rec, hrec, hid⟩ := Option.map_eq_some_iff.mp hsome
        exact h.id_ne hkeys hrec (mem_userRows.mpr ⟨hrow, hmanaged⟩) hid.symm
      simp [hkept]

/-- The managed records after a pass: the old ones of names in use, and the new ones. -/
theorem mem_managedDomains_reconcile (hkeys : (rows.map (·.id)).Nodup)
    (hsingle : (managedDomains rows).Nodup) {domain : String} :
    domain ∈ managedDomains (reconcile lib dns servers rows) ↔
      domain ∈ managedHostnames lib servers ∧
        (domain ∈ managedDomains rows ∨
          domain ∈ (resolved lib dns servers).map Prod.fst ∧ Fresh rows domain) := by
  have h : Registered rows ((resolved lib dns servers).foldl (register rows) rows)
      ((resolved lib dns servers).map Prod.fst) := registered hkeys
  have hmid : domain ∈ managedDomains ((resolved lib dns servers).foldl (register rows) rows) ↔
      domain ∈ managedDomains rows ∨
        domain ∈ (resolved lib dns servers).map Prod.fst ∧ Fresh rows domain := by
    rw [h.managed, List.mem_append, List.mem_filter, decide_eq_true_eq]
  rw [← hmid, mem_managedDomains, mem_managedDomains]
  constructor
  · rintro ⟨row, hrow, hmanaged, rfl⟩
    rw [reconcile, dropUnused, List.mem_filter] at hrow
    refine ⟨?_, row, hrow.1, hmanaged, rfl⟩
    rcases h.origin row hrow.1 hmanaged with ⟨old, hold, hmanaged', hid, hdomain⟩ | hdone
    · by_contra hunused
      have hfound := autos_eq_self hsingle hold hmanaged'
      rw [hdomain] at hfound
      simp [hunused, hfound, hid] at hrow
    · exact (resolved_keys dns servers).2 _ hdone
  · rintro ⟨hused, row, hrow, hmanaged, rfl⟩
    exact ⟨row, List.mem_filter.mpr ⟨hrow, by simp [hused]⟩, hmanaged, rfl⟩

/-- A pass keeps the managed records apart. -/
theorem reconcile_single (hkeys : (rows.map (·.id)).Nodup)
    (hsingle : (managedDomains rows).Nodup) :
    (managedDomains (reconcile lib dns servers rows)).Nodup := by
  have h : Registered rows ((resolved lib dns servers).foldl (register rows) rows)
      ((resolved lib dns servers).map Prod.fst) := registered hkeys
  have hmid :
      (managedDomains ((resolved lib dns servers).foldl (register rows) rows)).Nodup := by
    rw [h.managed]
    refine List.Nodup.append hsingle ((resolved_keys dns servers).1.filter _) ?_
    intro domain hold hnew
    have hfresh : Fresh rows domain := by simpa using (List.mem_filter.mp hnew).2
    exact hfresh.2 hold
  exact hmid.sublist ((List.filter_sublist.filter _).map _)

end Reconcile

end Facts

/-! ## Runs -/

inductive Event where
  | pass (dns : Nat → Option String)
  /-- Whatever a request that creates, edits or deletes a server makes of the URLs. -/
  | servers (urls : List String)
  | create (payload : RecordCreate)
  | update (id : Nat) (data : RecordUpdate)
  | delete (id : Nat)
  | rewriteDelete (domain answer : String)

/-- A refused request leaves the tables as they were. -/
def orKeep (db : Db) : Except HttpError Db → Db
  | .ok after => after
  | .error _ => db

/-- What holds of the table that a pass leaves, from the state before the pass. -/
structure Right (lib : Library) (before after : Db) : Prop where
  single : (managedDomains after.rows).Nodup
  used : ∀ domain ∈ managedDomains after.rows, domain ∈ managedHostnames lib after.servers
  unshadowed : ∀ domain ∈ managedDomains after.rows, domain ∉ userGlobal after.rows
  users : userRows after.rows = userRows before.rows

section Runs

variable (lib : Library)

def step (db : Db) : Event → Db
  | .pass dns =>
      { db with
        rows := reconcile lib dns db.servers db.rows
        keys := reconcile_keys db.keys }
  | .servers urls => { db with servers := urls }
  | .create payload => orKeep db (createRecord lib.lower payload db)
  | .update id data => orKeep db (updateRecord lib.lower id data db)
  | .delete id => orKeep db (deleteRecord id db)
  | .rewriteDelete domain answer =>
      orKeep db (HostnameRecords.rewriteDelete lib.lower domain answer db)

/-- Every pass leaves the table as it should be. -/
def RightAfter (db : Db) (e : Event) : Prop :=
  match e with
  | .pass _ => Right lib db (step lib db e)
  | _ => True

/-- A pass finds no managed record of a hostname in use that a user has made a global
record for since. -/
def Unshadowed (db : Db) : Event → Prop
  | .pass _ => ∀ domain ∈ managedDomains db.rows,
      domain ∈ managedHostnames lib db.servers → domain ∉ userGlobal db.rows
  | _ => True

variable {lib} {db after : Db}

/-! ### Managed records stay apart -/

/-- A record that is created is not a managed one. -/
theorem createRecord_managed {payload : RecordCreate}
    (h : createRecord lib.lower payload db = .ok after) :
    managedDomains after.rows = managedDomains db.rows := by
  obtain ⟨_, -, h⟩ := GoText.bind_ok.mp h
  obtain rfl := Except.ok.inj h
  simp [managedDomains, createdRow]

/-- An edit leaves the managed records as they are. -/
theorem updateRecord_managed {id : Nat} {data : RecordUpdate}
    (h : updateRecord lib.lower id data db = .ok after) :
    managedDomains after.rows = managedDomains db.rows := by
  unfold updateRecord at h
  split at h
  · cases h
  · rename_i row hfind
    split at h
    · cases h
    · rename_i hmanaged
      obtain ⟨_, -, h⟩ := GoText.bind_ok.mp h
      obtain rfl := Except.ok.inj h
      -- the edited row is the only one with its id, and it is a user's
      have hsame : ∀ old ∈ db.rows, old.id = row.id → old = row := fun old hold hid =>
        List.inj_on_of_nodup_map db.keys hold (List.mem_of_find?_eq_some hfind) hid
      refine managedDomains_map (fun old hold => ?_) fun old hold hmanaged' => ?_
      · split
        · rename_i hid
          rw [hsame old hold hid]
          rfl
        · rfl
      · split
        · rename_i hid
          rw [hsame old hold hid] at hmanaged'
          exact absurd hmanaged' hmanaged
        · rfl

/-- Records that are dropped leave the others single. -/
theorem without_single (drop : Row → Bool) (h : (managedDomains db.rows).Nodup) :
    (managedDomains (db.without drop).rows).Nodup :=
  h.sublist ((List.filter_sublist.filter _).map _)

/-- A deleted record leaves at most one managed record for a name. -/
theorem deleteRecord_single {id : Nat} (h : (managedDomains db.rows).Nodup)
    (hafter : deleteRecord id db = .ok after) : (managedDomains after.rows).Nodup := by
  unfold deleteRecord at hafter
  split at hafter
  · cases hafter
  · split at hafter
    · cases hafter
    · obtain rfl := Except.ok.inj hafter
      exact without_single _ h

/-- A deleted rewrite leaves at most one managed record for a name. -/
theorem rewriteDelete_single {domain answer : String} (h : (managedDomains db.rows).Nodup)
    (hafter : rewriteDelete lib.lower domain answer db = .ok after) :
    (managedDomains after.rows).Nodup := by
  unfold rewriteDelete at hafter
  dsimp only at hafter
  split at hafter
  · cases hafter
  · obtain rfl := Except.ok.inj hafter
    exact without_single _ h

/-- A request that may be refused leaves at most one managed record for a name. -/
theorem orKeep_single {answer : Except HttpError Db} (h : (managedDomains db.rows).Nodup)
    (hok : ∀ after, answer = .ok after → (managedDomains after.rows).Nodup) :
    (managedDomains (orKeep db answer).rows).Nodup := by
  cases answer with
  | ok after => exact hok after rfl
  | error e => exact h

/-- Every event leaves at most one managed record for a name. -/
theorem step_single (db : Db) (e : Event) (h : (managedDomains db.rows).Nodup) :
    (managedDomains (step lib db e).rows).Nodup := by
  cases e with
  | pass dns => exact reconcile_single db.keys h
  | servers urls => exact h
  | create payload =>
      refine orKeep_single h fun after hafter => ?_
      rw [createRecord_managed hafter]
      exact h
  | update id data =>
      refine orKeep_single h fun after hafter => ?_
      rw [updateRecord_managed hafter]
      exact h
  | delete id => exact orKeep_single h fun after hafter => deleteRecord_single h hafter
  | rewriteDelete domain answer =>
      exact orKeep_single h fun after hafter => rewriteDelete_single h hafter

variable (lib)

theorem empty_single : (managedDomains Db.empty.rows).Nodup := List.nodup_nil

/-- In every run each domain has one managed record at most. -/
theorem single_of_run (events : List Event) :
    Throughout (step lib) (fun db => (managedDomains db.rows).Nodup) Db.empty events :=
  throughout_of_kept _ step_single empty_single events

variable {lib}

/-- A pass does what it should exactly when it finds no record that a user shadows. -/
theorem rightAfter_iff (db : Db) (e : Event) (hsingle : (managedDomains db.rows).Nodup) :
    RightAfter lib db e ↔ Unshadowed lib db e := by
  cases e with
  | pass dns =>
      have husers : userRows (reconcile lib dns db.servers db.rows) = userRows db.rows :=
        userRows_reconcile db.keys
      have hmem : ∀ domain, domain ∈ managedDomains (reconcile lib dns db.servers db.rows) ↔
          domain ∈ managedHostnames lib db.servers ∧ (domain ∈ managedDomains db.rows ∨
            domain ∈ (resolved lib dns db.servers).map Prod.fst ∧ Fresh db.rows domain) :=
        fun _ => mem_managedDomains_reconcile db.keys hsingle
      constructor
      · intro h domain hmanaged hused
        have hstays := h.unshadowed domain ((hmem domain).mpr ⟨hused, .inl hmanaged⟩)
        rwa [show (step lib db (.pass dns)).rows = reconcile lib dns db.servers db.rows from rfl,
          userGlobal_congr husers] at hstays
      · intro h
        exact
          { single := reconcile_single db.keys hsingle
            used := fun domain hdomain => ((hmem domain).mp hdomain).1
            unshadowed := by
              intro domain hdomain
              rw [show (step lib db (.pass dns)).rows = reconcile lib dns db.servers db.rows
                from rfl, userGlobal_congr husers]
              obtain ⟨hused, hold | ⟨-, hfresh⟩⟩ := (hmem domain).mp hdomain
              · exact h domain hold hused
              · exact hfresh.1
            users := husers }
  | servers | create | update | delete | rewriteDelete => exact Iff.rfl

/-- **Managed records are right, exactly when no user comes after them.**  Along every run
of passes, edits of servers and edits of records, each pass leaves one managed record at
most for a name, none for a name that no server uses or that a user has a global record
for, and the records of users as they were, if and only if each pass finds no managed
record of a hostname in use that a user has made a global record for since. -/
theorem right_iff (lib : Library) (events : List Event) :
    Along (step lib) (RightAfter lib) Db.empty events ↔
      Along (step lib) (Unshadowed lib) Db.empty events :=
  along_congr_of_invariant (step lib) rightAfter_iff
    (fun db e hsingle _ => step_single db e hsingle) empty_single events

/-- A library that knows one URL. -/
def oneHost : Library where
  lower := String.toLower
  urlHostname url := if url = "http://dns-a.lan:3000" then some "dns-a.lan" else none

/-- A pass registers the hostname of a server, and then a user gives it another address. -/
def shadowing : List Event :=
  [.servers ["http://dns-a.lan:3000"], .pass fun _ => some "10.0.0.2",
    .create ⟨"dns-a.lan", "10.0.0.9", .global, [], true, .ok ()⟩]

/-- The next pass leaves the managed record in the table, next to that of the user. -/
theorem next_pass_keeps_shadowed :
    ¬ ∀ (lib : Library) (events : List Event),
      Along (step lib) (RightAfter lib) Db.empty events := by
  intro h
  have hrun := h oneHost (shadowing ++ [.pass fun _ => some "10.0.0.2"])
  have hlast : RightAfter oneHost (after (step oneHost) Db.empty shadowing)
      (.pass fun _ => some "10.0.0.2") := hrun.2.2.2.1
  have hmanaged : "dns-a.lan" ∈ managedDomains
      (step oneHost (after (step oneHost) Db.empty shadowing)
        (.pass fun _ => some "10.0.0.2")).rows := by
    decide +kernel
  refine hlast.unshadowed "dns-a.lan" hmanaged ?_
  decide +kernel

end Runs

end AdguardAdmin.HostnameRecords
