import AdguardAdmin.CanonicalJson
import AdguardAdmin.SettlingPasses
import AdguardAdmin.ZoneScopes
/-!
# The startup migration

`init_db` brings a database of any release up to date: it creates the tables that are
missing, adds the columns that came later, and writes the old `zone_id` of a row into its
list of zones.  Rows are modelled as SQLite stores them: the list is the text of a JSON
column, and a database of the first release has a `zone_id` column that the models do not
map any more, so that no request ever changes it.

The last of the three steps takes a row for one of the first release when its list is empty
and its `zone_id` is not.  A request can bring a row into that form again, and the next
start then gives it its old zone back.  `settled_throughout_iff` says which requests do.
Columns that neither the migration nor the scope of a row depends on are left out.
-/

namespace AdguardAdmin.Migration

open Registry RunLaws GoText TableIds JsonText Canon IpLiterals SettlingPasses

/-! ## Stored rows -/

/-- A row of a table with scopes.  `zoneId` is the column of the first release. -/
structure StoredRow where
  id : Int
  scope : ConfigScope
  zoneId : Option Int
  zoneIds : Option String
  serverId : Option Int
  managed : Bool
  deriving DecidableEq, Repr

def tableName : RowKind → String
  | .record => "dnsrecord"
  | .upstream => "upstream"
  | .forwardZone => "forwardzone"
  | .filterList => "filterlist"
  | .blockedService => "blockedservice"

/-- A database: the columns of each table that is there, and the rows.  Rows of a table
without one of the modelled columns have an arbitrary value in it. -/
structure Db where
  columns : String → Option (List String)
  zones : List ZoneRow
  servers : List ServerRow
  agents : List AgentRow
  balancers : List BalancerRow
  overrides : List OverrideRow
  tokens : List TokenRow
  rows : RowKind → List StoredRow

namespace Db

def setRows (db : Db) (kind : RowKind) (rows : List StoredRow) : Db :=
  { db with rows := Function.update db.rows kind rows }

@[simp] theorem setRows_self (db : Db) (kind : RowKind) (rows : List StoredRow) :
    (db.setRows kind rows).rows kind = rows := by
  simp [setRows]

theorem setRows_of_ne (db : Db) {kind other : RowKind} (h : other ≠ kind) (rows : List StoredRow) :
    (db.setRows kind rows).rows other = db.rows other := by
  simp [setRows, Function.update_of_ne h]

/-- Rewrite the rows of the table of a name. -/
def mapTable (db : Db) (table : String) (f : List StoredRow → List StoredRow) : Db :=
  { db with rows := fun kind => if tableName kind = table then f (db.rows kind) else db.rows kind }

end Db

/-! ## The migration -/

/-- What a column type says about the rows that are already there. -/
inductive Default where
  | null
  | int (n : Int)
  | text (s : String)
  deriving DecidableEq, Repr

structure Column where
  name : String
  type : String
  default : Default
  deriving DecidableEq, Repr

/-- `SQLModel.metadata`. -/
def models : List (String × List String) :=
  [("user", ["id", "username", "email", "hashed_password", "role", "is_active", "oidc_sub",
      "created_at"]),
    ("zone", ["id", "name", "slug", "description", "vip", "vrrp_router_id", "vrrp_auth_enc",
      "created_at"]),
    ("server", ["id", "name", "url", "username", "password_enc", "zone_id", "enabled", "prune",
      "manage_upstreams", "manage_filtering", "tls_cert", "agent_id", "dns_port",
      "expose_web_ui", "agent_state", "lb_state", "stats_snapshot", "auto_update",
      "install_method", "can_autoupdate", "update_check_disabled", "update_state",
      "update_attempted_at", "update_attempted_version", "update_completed_at", "update_error",
      "status", "version", "latest_version", "update_available", "last_seen", "last_synced",
      "last_error", "cooldown_until", "in_sync", "created_at"]),
    ("dnsrecord", ["id", "domain", "answer", "scope", "zone_ids", "enabled", "description",
      "managed", "created_at", "updated_at"]),
    ("upstream", ["id", "address", "kind", "scope", "zone_ids", "server_id", "enabled",
      "description", "created_at"]),
    ("forwardzone", ["id", "domains", "upstreams", "scope", "zone_ids", "server_id", "enabled",
      "description", "created_at"]),
    ("filterlist", ["id", "name", "url", "kind", "scope", "zone_ids", "server_id", "enabled",
      "description", "created_at"]),
    ("blockedservice", ["id", "service_id", "scope", "zone_ids", "server_id", "enabled",
      "description", "created_at"]),
    ("provisioningtoken", ["id", "token", "name", "zone_id", "method", "prune", "auto_update",
      "ssl_enabled", "connect_address", "http_port", "https_port", "dns_port",
      "admin_username", "admin_password_enc", "tls_cert", "tls_key_enc", "roles", "agent_port",
      "vrrp_priority", "expose_web_ui", "lb_mode", "status", "created_at", "expires_at",
      "completed_at", "server_id", "agent_id", "load_balancer_id", "config_fetched_at",
      "key_fetched_at"]),
    ("agentca", ["id", "ca_cert_pem", "ca_key_enc", "client_cert_pem", "client_key_enc",
      "created_at"]),
    ("agent", ["id", "name", "url", "address", "port", "zone_id", "hostname", "os", "arch",
      "version", "cert_pem", "cert_not_after", "status", "last_seen", "last_error", "info",
      "health", "update_attempted_at", "update_error", "created_at"]),
    ("loadbalancer", ["id", "name", "zone_id", "agent_id", "enabled", "install_method", "image",
      "listen_addresses", "policy", "ecs", "cache_enabled", "cache_max_entries", "hc_name",
      "hc_interval_s", "hc_max_failures", "hc_rise", "hc_mode", "acl", "vrrp_priority",
      "vip_interface", "mode", "ipvs_algo", "desired_hash", "applied_hash", "in_sync", "status",
      "last_synced", "last_error", "state", "keepalived_state", "created_at"]),
    ("metricsample", ["id", "ts", "resolution", "kind", "entity_id", "values"]),
    ("loadbalancerbackend", ["id", "load_balancer_id", "server_id", "enabled", "weight",
      "order"])]

/-- `_ADDED_COLUMNS`. -/
def addedColumns : List (String × List Column) :=
  [("server",
      [⟨"tls_cert", "TEXT", .null⟩, ⟨"manage_upstreams", "BOOLEAN", .int 0⟩,
        ⟨"manage_filtering", "BOOLEAN", .int 0⟩, ⟨"latest_version", "TEXT", .null⟩,
        ⟨"update_available", "BOOLEAN", .int 0⟩, ⟨"cooldown_until", "TIMESTAMP", .null⟩,
        ⟨"auto_update", "BOOLEAN", .int 0⟩, ⟨"install_method", "TEXT", .null⟩,
        ⟨"can_autoupdate", "BOOLEAN", .int 0⟩, ⟨"update_check_disabled", "BOOLEAN", .int 0⟩,
        ⟨"update_state", "TEXT", .text "idle"⟩, ⟨"update_attempted_at", "TIMESTAMP", .null⟩,
        ⟨"update_attempted_version", "TEXT", .null⟩, ⟨"update_completed_at", "TIMESTAMP", .null⟩,
        ⟨"update_error", "TEXT", .null⟩, ⟨"agent_id", "INTEGER", .null⟩,
        ⟨"dns_port", "INTEGER", .int 53⟩, ⟨"expose_web_ui", "BOOLEAN", .int 0⟩,
        ⟨"agent_state", "JSON", .null⟩, ⟨"lb_state", "JSON", .null⟩,
        ⟨"stats_snapshot", "JSON", .null⟩]),
    ("zone",
      [⟨"vip", "TEXT", .null⟩, ⟨"vrrp_router_id", "INTEGER", .null⟩,
        ⟨"vrrp_auth_enc", "TEXT", .null⟩]),
    ("dnsrecord", [⟨"zone_ids", "TEXT", .text "[]"⟩, ⟨"managed", "BOOLEAN", .int 0⟩]),
    ("upstream", [⟨"zone_ids", "TEXT", .text "[]"⟩, ⟨"kind", "TEXT", .text "upstream"⟩]),
    ("forwardzone", [⟨"zone_ids", "TEXT", .text "[]"⟩]),
    ("provisioningtoken",
      [⟨"config_fetched_at", "TIMESTAMP", .null⟩, ⟨"key_fetched_at", "TIMESTAMP", .null⟩,
        ⟨"auto_update", "BOOLEAN", .int 0⟩, ⟨"roles", "JSON", .text "[\"adguard\"]"⟩,
        ⟨"agent_port", "INTEGER", .int 8443⟩, ⟨"vrrp_priority", "INTEGER", .int 100⟩,
        ⟨"expose_web_ui", "BOOLEAN", .int 0⟩, ⟨"agent_id", "INTEGER", .null⟩,
        ⟨"load_balancer_id", "INTEGER", .null⟩, ⟨"lb_mode", "TEXT", .text "dnsdist"⟩]),
    ("loadbalancer",
      [⟨"mode", "TEXT", .text "dnsdist"⟩, ⟨"ipvs_algo", "TEXT", .text "wlc"⟩]),
    ("agent", [⟨"update_attempted_at", "TIMESTAMP", .null⟩, ⟨"update_error", "TEXT", .null⟩])]

/-- `_ZONE_ID_BACKFILL`. -/
def zoneIdBackfill : List String := ["dnsrecord", "upstream", "forwardzone"]

/-- `create_all`, for one table. -/
def createTable (db : Db) (table : String × List String) : Db :=
  match db.columns table.1 with
  | some _ => db
  | none =>
      { db.mapTable table.1 fun _ => [] with
        columns := Function.update db.columns table.1 (some table.2) }

/-- What a new column holds in a row that is already there. -/
def StoredRow.addColumn (row : StoredRow) (column : Column) : StoredRow :=
  if column.name = "zone_ids" then
    { row with
      zoneIds := match column.default with
        | .null => none
        | .int n => some (toString n)
        | .text s => some s }
  else if column.name = "managed" then
    { row with managed := match column.default with | .int n => n ≠ 0 | _ => false }
  else row

/-- `_ensure_columns`, for one table. -/
def ensureTable (db : Db) (entry : String × List Column) : Db :=
  match db.columns entry.1 with
  | none => db
  | some present =>
      let missing := entry.2.filter fun column => column.name ∉ present
      { db.mapTable entry.1 fun rows => rows.map fun row => missing.foldl StoredRow.addColumn row with
        columns := Function.update db.columns entry.1 (some (present ++ missing.map (·.name))) }

/-- The rows that the backfill takes for unmigrated ones. -/
def StoredRow.Unmigrated (row : StoredRow) : Prop :=
  row.zoneId ≠ none ∧ (row.zoneIds = none ∨ row.zoneIds = some "[]" ∨ row.zoneIds = some "")

instance (row : StoredRow) : Decidable row.Unmigrated :=
  inferInstanceAs (Decidable (_ ∧ _))

/-- `UPDATE … SET zone_ids = '[' || zone_id || ']' WHERE …`, on one row. -/
def StoredRow.backfill (row : StoredRow) : StoredRow :=
  if row.Unmigrated then
    { row with zoneIds := row.zoneId.map fun id => "[" ++ toString id ++ "]" }
  else row

/-- `_backfill_zone_ids`, for one table. -/
def backfillTable (db : Db) (table : String) : Db :=
  match db.columns table with
  | none => db
  | some cols =>
      if "zone_id" ∉ cols ∨ "zone_ids" ∉ cols then db
      else db.mapTable table fun rows => rows.map StoredRow.backfill

def createAll (db : Db) : Db := models.foldl createTable db

def ensureColumns (db : Db) : Db := addedColumns.foldl ensureTable db

def backfillZoneIds (db : Db) : Db := zoneIdBackfill.foldl backfillTable db

def initDb (db : Db) : Db := backfillZoneIds (ensureColumns (createAll db))

/-! ## One run settles it -/

/-- The table has both columns of the backfill. -/
def HoldsLegacy (columns : String → Option (List String)) (table : String) : Prop :=
  ∃ cols, columns table = some cols ∧ "zone_id" ∈ cols ∧ "zone_ids" ∈ cols

def Created (table : String × List String) (db : Db) : Prop := db.columns table.1 ≠ none

def Complete (entry : String × List Column) (db : Db) : Prop :=
  ∀ cols, db.columns entry.1 = some cols → ∀ column ∈ entry.2, column.name ∈ cols

def Backfilled (table : String) (db : Db) : Prop :=
  HoldsLegacy db.columns table →
    ∀ kind, tableName kind = table → ∀ row ∈ db.rows kind, ¬ row.Unmigrated

@[simp] theorem mapTable_columns (db : Db) (table : String) (f : List StoredRow → List StoredRow) :
    (db.mapTable table f).columns = db.columns := rfl

/-- A table whose rows stay as they are is not changed. -/
theorem mapTable_of_fixed {db : Db} {table : String} {f : List StoredRow → List StoredRow}
    (h : ∀ kind, tableName kind = table → f (db.rows kind) = db.rows kind) :
    db.mapTable table f = db := by
  have hrows : (db.mapTable table f).rows = db.rows := by
    funext kind
    by_cases hkind : tableName kind = table
    · exact (if_pos hkind).trans (h kind hkind)
    · exact if_neg hkind
  calc db.mapTable table f = { db with rows := (db.mapTable table f).rows } := rfl
    _ = db := by rw [hrows]

/-- A table that was created is there, and stays. -/
theorem settles_createTable : SettlesJobs createTable Created where
  reaches db table := by
    unfold createTable Created
    split
    · simp_all
    · simp
  keeps db table other h := by
    unfold createTable
    split
    · exact h
    · by_cases heq : other.1 = table.1
      · simp [Created, heq]
      · simpa [Created, Function.update_of_ne heq] using h
  rests db table h := by
    unfold createTable
    split
    · rfl
    · next hnone => exact (h hnone).elim

/-- A table that is completed keeps its columns, and is there as before. -/
theorem ensureTable_columns (db : Db) (entry : String × List Column) (table : String) :
    ((ensureTable db entry).columns table = none ↔ db.columns table = none) ∧
      ∀ cols, (ensureTable db entry).columns table = some cols →
        ∃ old, db.columns table = some old ∧ old ⊆ cols := by
  unfold ensureTable
  split
  · exact ⟨Iff.rfl, fun cols h => ⟨cols, h, List.Subset.refl cols⟩⟩
  · next present hpresent =>
      by_cases heq : table = entry.1
      · subst heq
        refine ⟨by simp [hpresent], fun cols h => ⟨present, hpresent, ?_⟩⟩
        obtain rfl : present ++ _ = cols := by simpa using h
        exact List.subset_append_left _ _
      · simp only [Function.update_of_ne heq]
        exact ⟨trivial, fun cols h => ⟨cols, h, List.Subset.refl cols⟩⟩

/-- A table that was completed is complete, and stays so. -/
theorem settles_ensureTable : SettlesJobs ensureTable Complete where
  reaches db entry := by
    unfold ensureTable Complete
    split
    · next hnone =>
        intro cols hcols
        rw [hnone] at hcols
        cases hcols
    · next present hpresent =>
        intro cols hcols column hcolumn
        obtain rfl : present ++ _ = cols := by simpa using hcols
        by_cases hold : column.name ∈ present
        · exact List.mem_append_left _ hold
        · refine List.mem_append_right _ (List.mem_map.mpr ⟨column, ?_, rfl⟩)
          simp [hcolumn, hold]
  keeps db entry other h cols hcols column hcolumn := by
    obtain ⟨old, hold, hsubset⟩ := (ensureTable_columns db entry other.1).2 cols hcols
    exact hsubset (h old hold column hcolumn)
  rests db entry h := by
    unfold ensureTable
    split
    · rfl
    · next present hpresent =>
        have hmissing : (entry.2.filter fun column => column.name ∉ present) = [] := by
          rw [List.filter_eq_nil_iff]
          intro column hcolumn
          simpa using h present hpresent column hcolumn
        have hrows : (db.mapTable entry.1 fun rows => rows.map fun row => row) = db :=
          mapTable_of_fixed fun kind _ => List.map_id' _
        have hcolumns : Function.update db.columns entry.1 (some present) = db.columns := by
          rw [← hpresent, Function.update_eq_self]
        simp only [hmissing, List.foldl_nil, List.map_nil, List.append_nil, hrows, hcolumns]

/-! The text that the backfill writes is one that no later run takes for an empty list. -/

/-- `json.dumps` of a list of integers. -/
def dumpsIds (ids : List Int) : String := "[" ++ ", ".intercalate (ids.map intText) ++ "]"

/-- The text of a list is never empty. -/
theorem dumpsIds_ne_empty (ids : List Int) : dumpsIds ids ≠ "" := by
  intro h
  have htext := congrArg String.toList h
  simp [dumpsIds] at htext

/-- An empty list is written as two brackets, and no other. -/
theorem dumpsIds_eq_brackets {ids : List Int} : dumpsIds ids = "[]" ↔ ids = [] := by
  constructor
  · intro h
    have htext : (", ".intercalate (ids.map intText)).toList = [] := by
      have hlist := congrArg String.toList h
      simpa [dumpsIds] using hlist
    cases ids with
    | nil => rfl
    | cons n rest =>
        have hdigits : (intText n).toList = [] := by
          rw [String.toList_intercalate] at htext
          cases rest with
          | nil => simpa using htext
          | cons m rest => simp [List.intercalate_cons_cons] at htext
        obtain ⟨c, hc⟩ := (isNumber_intText n).head
        simp [hdigits] at hc
  · rintro rfl
    rfl

/-- A row with the text of a list counts as unmigrated only if that list is empty and it has an
old zone. -/
theorem unmigrated_dumpsIds_iff {row : StoredRow} {ids : List Int}
    (h : row.zoneIds = some (dumpsIds ids)) : row.Unmigrated ↔ row.zoneId ≠ none ∧ ids = [] := by
  simp [StoredRow.Unmigrated, h, dumpsIds_ne_empty, dumpsIds_eq_brackets]

/-- The backfill leaves no row unmigrated. -/
theorem backfill_migrates (row : StoredRow) : ¬ row.backfill.Unmigrated := by
  unfold StoredRow.backfill
  split
  · next h =>
      obtain ⟨id, hid⟩ := Option.ne_none_iff_exists'.mp h.1
      have htext : "[" ++ toString id ++ "]" = dumpsIds [id] := by
        simp only [dumpsIds, intText, List.map_cons, List.map_nil, String.intercalate_singleton]
      have hwritten : (row.zoneId.map fun id => "[" ++ toString id ++ "]") =
          some (dumpsIds [id]) := by
        rw [hid, Option.map_some, htext]
      rw [unmigrated_dumpsIds_iff hwritten]
      simp
  · assumption

/-- The backfill leaves a migrated row as it is. -/
theorem backfill_of_migrated {row : StoredRow} (h : ¬ row.Unmigrated) : row.backfill = row :=
  if_neg h

/-- The backfill adds no column. -/
theorem backfillTable_columns (db : Db) (table : String) :
    (backfillTable db table).columns = db.columns := by
  unfold backfillTable
  split
  · rfl
  · split <;> rfl

/-- A table that was filled is filled, and stays so. -/
theorem settles_backfillTable : SettlesJobs backfillTable Backfilled where
  reaches db table := by
    rw [Backfilled, backfillTable_columns]
    rintro ⟨cols, hcols, hlegacy, hids⟩ kind hkind row hrow
    simp only [backfillTable, hcols, hlegacy, hids, not_true_eq_false, or_self, if_false,
      Db.mapTable, hkind, if_true] at hrow
    obtain ⟨old, -, rfl⟩ := List.mem_map.mp hrow
    exact backfill_migrates old
  keeps db table other h := by
    rw [Backfilled, backfillTable_columns]
    intro hholds kind hkind row hrow
    have hold := h hholds kind hkind
    unfold backfillTable at hrow
    split at hrow
    · exact hold row hrow
    · split at hrow
      · exact hold row hrow
      · dsimp only [Db.mapTable] at hrow
        split at hrow
        · obtain ⟨old, -, rfl⟩ := List.mem_map.mp hrow
          exact backfill_migrates old
        · exact hold row hrow
  rests db table h := by
    unfold backfillTable
    split
    · rfl
    · next cols hcols =>
        split
        · rfl
        · next hboth =>
            rw [not_or, not_not, not_not] at hboth
            refine mapTable_of_fixed fun kind hkind => ?_
            have hrows := h ⟨cols, hcols, hboth.1, hboth.2⟩ kind hkind
            calc (db.rows kind).map StoredRow.backfill
                = (db.rows kind).map id :=
                  List.map_congr_left fun row hrow => backfill_of_migrated (hrows row hrow)
              _ = db.rows kind := List.map_id _

/-- The schema is up to date and no row is left to backfill. -/
def Migrated (db : Db) : Prop :=
  ((∀ table ∈ models, Created table db) ∧ ∀ entry ∈ addedColumns, Complete entry db) ∧
    ∀ table ∈ zoneIdBackfill, Backfilled table db

/-- One run of the migration settles it. -/
theorem settling_initDb : Settling initDb Migrated := by
  have hcreated := settles_createTable.settling models
  have hcomplete := settles_ensureTable.settling addedColumns
  have hbackfilled := settles_backfillTable.settling zoneIdBackfill
  refine (hcreated.comp hcomplete ?_).comp hbackfilled ?_
  · intro db h table htable
    exact foldl_keeps (fun db entry hdb => fun hnone =>
      hdb ((ensureTable_columns db entry table.1).1.mp hnone)) (h table htable) addedColumns
  · intro db h
    have hcolumns : (backfillZoneIds db).columns = db.columns :=
      foldl_keeps (P := fun t => t.columns = db.columns)
        (fun t table ht => (backfillTable_columns t table).trans ht) rfl zoneIdBackfill
    simpa only [Created, Complete, hcolumns] using h

/-- **The migration takes effect once**, as long as nothing else writes. -/
theorem initDb_initDb (db : Db) : initDb (initDb db) = initDb db := settling_initDb.idempotent db

/-! ## Requests -/

/-- An integer as JSON writes it. -/
def readIntText (text : String) : Option Int :=
  match text.toList with
  | '-' :: digits => (decimal? digits).map fun n => -(n : Int)
  | digits => (decimal? digits).map Int.ofNat

def readIntItem : Json String → Option Int
  | .num n => readIntText n
  | _ => none

/-- `json.loads`, as far as it gives a list of integers. -/
def loadsIds (text : String) : Option (List Int) :=
  match readValue (text.toList.length + 1) (skip text.toList) with
  | some (.arr items, rest) => if skip rest = [] then items.mapM readIntItem else none
  | _ => none

/-- An integer is read back. -/
theorem readIntText_intText (n : Int) : readIntText (intText n) = some n := by
  unfold readIntText
  rw [intText_toList]
  cases n with
  | negSucc m =>
      simp only [decimal?_toDigits]
      rfl
  | ofNat m =>
      dsimp only
      split
      · next digits heq =>
          have hdigit : isDigit '-' = true :=
            isDigit_of_mem_toDigits (heq ▸ List.mem_cons_self)
          cases hdigit
      · rw [decimal?_toDigits]
        rfl

/-- A list of integers is written as the items of an array. -/
theorem itemsText_ids (ids : List Int) :
    ItemsText (ids.map fun n => .num (intText n)) (", ".intercalate (ids.map intText)).toList := by
  rw [String.toList_intercalate]
  induction ids with
  | nil => exact blank_nil
  | cons n rest ih =>
      have hnumber := isNumber_intText n
      cases rest with
      | nil => exact ⟨[], _, [], blank_nil, ⟨rfl, hnumber⟩, blank_nil, by simp⟩
      | cons m rest =>
          have hspace : Blank [' '] := by
            intro c hc
            rw [List.mem_singleton.mp hc]
            rfl
          exact ⟨[], _, [], _, blank_nil, ⟨rfl, hnumber⟩, blank_nil, ih.blank hspace,
            by simp [List.intercalate_cons_cons]⟩

/-- The items are read back. -/
theorem mapM_readIntItem (ids : List Int) :
    (ids.map fun n => Json.num (intText n)).mapM readIntItem = some ids := by
  induction ids with
  | nil => rfl
  | cons n rest ih =>
      rw [List.map_cons, List.mapM_cons, ih, readIntItem, readIntText_intText]
      rfl

/-- What a session writes, the next one loads. -/
theorem loadsIds_dumpsIds (ids : List Int) : loadsIds (dumpsIds ids) = some ids := by
  have htext : Text (.arr (ids.map fun n => .num (intText n))) (dumpsIds ids).toList :=
    ⟨_, by simp [dumpsIds], itemsText_ids ids⟩
  have hskip : skip (dumpsIds ids).toList = (dumpsIds ids).toList := by
    simp [dumpsIds, skip_cons (show isBlank '[' = false from rfl)]
  have hfollows : Follows [] := fun c hc => nomatch hc
  have hread := readValue_text htext hfollows (Nat.lt_succ_self _)
  rw [List.append_nil] at hread
  have hend : skip [] = [] := rfl
  simp only [loadsIds, hskip, hread, hend, if_true, mapM_readIntItem]

/-- The list of a row as the request's session loads it; a text that is no list of
integers, which no release writes, is not read. -/
def StoredRow.loaded (row : StoredRow) : Except HttpError (Option (List Int)) :=
  match row.zoneIds with
  | none => .ok none
  | some text =>
      match loadsIds text with
      | some ids => .ok (some ids)
      | none => .error ⟨500, "Internal Server Error"⟩

/-- The row as a router sees it, its list loaded. -/
def StoredRow.scoped (row : StoredRow) (ids : Option (List Int)) : ScopedRow :=
  ⟨row.id, row.scope, ids.getD [], row.serverId, row.managed⟩

/-- The row after the session's flush: a list that compares equal to the loaded one is not
written, and the column of the first release never is. -/
def StoredRow.flush (row : StoredRow) (ids : Option (List Int)) (new : ScopedRow) : StoredRow :=
  { row with
    scope := new.scope
    zoneIds := if ids = some new.zoneIds then row.zoneIds else some (dumpsIds new.zoneIds)
    serverId := new.serverId }

/-- The keys and references of a database, without the lists of zones. -/
def Db.tables (db : Db) : Tables where
  zones := db.zones
  servers := db.servers
  agents := db.agents
  balancers := db.balancers
  overrides := db.overrides
  tokens := db.tokens
  rows kind := (db.rows kind).map (·.scoped none)

def createRow (db : Db) (kind : RowKind) (payload : RowCreate) : Except HttpError Db := do
  let scope ← columnScope kind (some payload.scope)
  validateScope db.tables kind (some payload.scope) (some payload.zoneIds) payload.serverId
  payload.others
  let row : StoredRow :=
    { id := nextId ((db.rows kind).map (·.id))
      scope := scope
      zoneId := none
      zoneIds := some (dumpsIds (if payload.scope = .zone then sortedIds payload.zoneIds else []))
      serverId := if payload.scope = .server then payload.serverId else none
      managed := false }
  return db.setRows kind (db.rows kind ++ [row])

def updateRow (db : Db) (kind : RowKind) (id : Int) (data : RowUpdate) : Except HttpError Db :=
  match (db.rows kind).find? (·.id = id) with
  | none => .error ⟨404, kind.notFound⟩
  | some row => do
      let ids ← row.loaded
      if kind = .record ∧ row.managed then
        .error ⟨409, "This record is auto-managed from the servers list"⟩
      else do
        let new ← editedRow db.tables kind (row.scoped ids) data
        return db.setRows kind (putRow StoredRow.id (row.flush ids new) (db.rows kind))

def deleteRow (db : Db) (kind : RowKind) (id : Int) : Except HttpError Db :=
  match (db.rows kind).find? (·.id = id) with
  | none => .error ⟨404, kind.notFound⟩
  | some row => do
      let _ ← row.loaded
      if kind = .record ∧ row.managed then
        .error ⟨409, "This record is auto-managed; remove the server instead"⟩
      else return db.setRows kind ((db.rows kind).filter (·.id ≠ id))

/-- `_zone_member_count`, as far as it is zero or not. -/
def Db.zoneHasMember (db : Db) (kind : RowKind) (id : Int) : Except HttpError Bool := do
  let lists ← (db.rows kind).mapM (·.loaded)
  return lists.any fun ids => id ∈ ids.getD []

variable (slugify : String → String)

def createZone (db : Db) (name : String) (slug : Option String) : Except HttpError Db :=
  let zone : ZoneRow := ⟨nextId (db.zones.map (·.id)), name, slugify (slugSource name slug)⟩
  if db.zones.any fun z => z.name = name ∨ z.slug = zone.slug then
    .error ⟨409, "Zone name or slug already exists"⟩
  else .ok { db with zones := db.zones ++ [zone] }

/-- `others` is what the checks on the other columns answer. -/
def updateZone (db : Db) (id : Int) (name slug : Option String) (others : Except HttpError Unit) :
    Except HttpError Db :=
  if db.tables.hasZone id then do
    others
    return { db with
      zones := db.zones.map fun z =>
        if z.id = id then
          { z with
            name := name.getD z.name
            slug := match slug with
              | some text => if text = "" then text else slugify text
              | none => z.slug }
        else z }
  else .error ⟨404, "Zone not found"⟩

def deleteZone (db : Db) (id : Int) : Except HttpError Db :=
  if db.tables.hasZone id = false then .error ⟨404, "Zone not found"⟩
  else if db.servers.any (·.zoneId = some id) then
    .error ⟨400, "Zone has servers; reassign or remove them first"⟩
  else if db.balancers.any (·.zoneId = some id) then
    .error ⟨400, "Zone has load balancers; reassign or remove them first"⟩
  else do
    if ← db.zoneHasMember .record id then
      .error ⟨400, "Zone has DNS records; remove them first"⟩
    else if ← db.zoneHasMember .upstream id then
      .error ⟨400, "Zone has DNS settings; remove them first"⟩
    else if ← db.zoneHasMember .forwardZone id then
      .error ⟨400, "Zone has DNS settings; remove them first"⟩
    else if id ∈ db.tables.zoneRefs then .error ⟨500, "FOREIGN KEY constraint failed"⟩
    else return { db with zones := db.zones.filter (·.id ≠ id) }

inductive Op where
  | createRow (kind : RowKind) (payload : RowCreate)
  | updateRow (kind : RowKind) (id : Int) (data : RowUpdate)
  | deleteRow (kind : RowKind) (id : Int)
  | createZone (name : String) (slug : Option String)
  | updateZone (id : Int) (name slug : Option String) (others : Except HttpError Unit)
  | deleteZone (id : Int)
  /-- Anything the control plane does to hosts, balancers and tokens. -/
  | others (servers : List ServerRow) (agents : List AgentRow) (balancers : List BalancerRow)
      (overrides : List OverrideRow) (tokens : List TokenRow)

/-- A refused request leaves the database alone. -/
def orKeep (db : Db) : Except HttpError Db → Db
  | .ok after => after
  | .error _ => db

def apply (db : Db) : Op → Db
  | .createRow kind payload => orKeep db (createRow db kind payload)
  | .updateRow kind id data => orKeep db (updateRow db kind id data)
  | .deleteRow kind id => orKeep db (deleteRow db kind id)
  | .createZone name slug => orKeep db (createZone slugify db name slug)
  | .updateZone id name slug others => orKeep db (updateZone slugify db id name slug others)
  | .deleteZone id => orKeep db (deleteZone db id)
  | .others servers agents balancers overrides tokens =>
      { db with
        servers := servers, agents := agents, balancers := balancers, overrides := overrides,
        tokens := tokens }

/-! ## The requests that undo it -/

/-- The edit takes the row out of zone scope, and is accepted. -/
def LeavesZones (t : Tables) (kind : RowKind) (row : ScopedRow) (data : RowUpdate) : Prop :=
  data.others = .ok () ∧
    match data.scope.getD (some row.scope) with
    | some .global => True
    | some .server =>
        kind ≠ .record ∧ ∃ id, data.serverId.getD row.serverId = some id ∧ t.hasServer id = true
    | _ => False

/-- The backfill looks after the row. -/
def Legacy (db : Db) (kind : RowKind) (row : StoredRow) : Prop :=
  tableName kind ∈ zoneIdBackfill ∧ HoldsLegacy db.columns (tableName kind) ∧ row.zoneId ≠ none

/-- The request takes a row that still has the column of the first release, and a list of
zones, out of zone scope. -/
def Detaches (db : Db) : Op → Prop
  | .updateRow kind id data =>
      ∃ row ids, (db.rows kind).find? (·.id = id) = some row ∧ Legacy db kind row ∧
        row.loaded = .ok (some ids) ∧ ids ≠ [] ∧ ¬ (kind = .record ∧ row.managed = true) ∧
        LeavesZones db.tables kind (row.scoped (some ids)) data
  | _ => False

variable {db : Db}

theorem sortedIds_eq_nil {ids : List Int} : sortedIds ids = [] ↔ ids = [] := by
  simp only [List.eq_nil_iff_forall_not_mem, mem_sortedIds]

/-- An accepted scope of zones names some. -/
theorem validateScope_zone {t : Tables} {kind : RowKind} {zoneIds : Option (List Int)}
    {serverId : Option Int} (h : validateScope t kind (some .zone) zoneIds serverId = .ok ()) :
    zoneIds.getD [] ≠ [] := by
  intro hnil
  rw [validateScope, hnil] at h
  cases h

/-- An accepted scope of a server names one that exists. -/
theorem validateScope_server {t : Tables} {kind : RowKind} {zoneIds : Option (List Int)}
    {serverId : Option Int} : validateScope t kind (some .server) zoneIds serverId = .ok () ↔
      ∃ id, serverId = some id ∧ t.hasServer id = true := by
  cases serverId with
  | none => simp [validateScope]
  | some id => simp [validateScope]

/-- All but records may be scoped to a server. -/
theorem columnScope_server {kind : RowKind} {scope : ConfigScope} :
    columnScope kind (some .server) = .ok scope ↔ kind ≠ .record ∧ .server = scope := by
  cases kind <;> simp [columnScope]

/-- An accepted edit leaves a list without zones exactly when it leaves zone scope. -/
theorem editedRow_emptied_iff {t : Tables} {kind : RowKind} {row : ScopedRow} {data : RowUpdate} :
    (∃ new, editedRow t kind row data = .ok new ∧ new.zoneIds = []) ↔
      LeavesZones t kind row data := by
  simp only [editedRow, bind_ok, pure_ok, LeavesZones]
  constructor
  · rintro ⟨new, ⟨⟨⟩, hvalid, ⟨⟩, hothers, scope, hcolumn, rfl⟩, hempty⟩
    refine ⟨hothers, ?_⟩
    have hscope := columnScope_ok hcolumn
    rw [hscope] at hvalid hcolumn ⊢
    cases scope with
    | global => trivial
    | server => exact ⟨(columnScope_server.mp hcolumn).1, validateScope_server.mp hvalid⟩
    | zone =>
        have hzones := validateScope_zone hvalid
        cases hids : data.zoneIds with
        | none => exact hzones (by simpa [hids] using hempty)
        | some ids => exact hzones (by simpa [hids, sortedIds_eq_nil] using hempty)
  · rintro ⟨hothers, hscope⟩
    split at hscope
    · next hglobal =>
        rw [hglobal]
        exact ⟨_, ⟨(), rfl, (), hothers, .global, by simp [columnScope], rfl⟩, rfl⟩
    · next hserver =>
        rw [hserver]
        exact ⟨_, ⟨(), validateScope_server.mpr hscope.2, (), hothers, .server,
          columnScope_server.mpr ⟨hscope.1, rfl⟩, rfl⟩, rfl⟩
    · exact hscope.elim

/-- Whether the backfill takes a migrated row for an unmigrated one after an edit. -/
theorem flush_unmigrated_iff {row : StoredRow} {ids : Option (List Int)} {new : ScopedRow}
    (h : ¬ row.Unmigrated) : (row.flush ids new).Unmigrated ↔
      row.zoneId ≠ none ∧ new.zoneIds = [] ∧ ids ≠ some [] := by
  by_cases hsame : ids = some new.zoneIds
  · have hkept : (row.flush ids new).Unmigrated ↔ row.Unmigrated := by
      simp [StoredRow.Unmigrated, StoredRow.flush, hsame]
    refine iff_of_false (mt hkept.mp h) ?_
    rintro ⟨-, hempty, hne⟩
    exact hne (by rw [hsame, hempty])
  · have hwritten : (row.flush ids new).zoneIds = some (dumpsIds new.zoneIds) := if_neg hsame
    rw [unmigrated_dumpsIds_iff hwritten]
    constructor
    · rintro ⟨hlegacy, hempty⟩
      exact ⟨hlegacy, hempty, fun hids => hsame (by rw [hids, hempty])⟩
    · rintro ⟨hlegacy, hempty, -⟩
      exact ⟨hlegacy, hempty⟩

/-- An accepted edit replaces a row that is loaded and not managed. -/
theorem updateRow_ok {after : Db} {kind : RowKind} {id : Int} {data : RowUpdate} :
    updateRow db kind id data = .ok after ↔
      ∃ row ids new, (db.rows kind).find? (·.id = id) = some row ∧ row.loaded = .ok ids ∧
        ¬ (kind = .record ∧ row.managed = true) ∧
        editedRow db.tables kind (row.scoped ids) data = .ok new ∧
        db.setRows kind (putRow StoredRow.id (row.flush ids new) (db.rows kind)) = after := by
  unfold updateRow
  cases hfind : (db.rows kind).find? (·.id = id) with
  | none => simp
  | some row =>
      simp only [bind_ok]
      constructor
      · rintro ⟨ids, hids, h⟩
        split at h
        · cases h
        · next hmanaged =>
            obtain ⟨new, hnew, hafter⟩ := bind_ok.mp h
            exact ⟨row, ids, new, rfl, hids, hmanaged, hnew, pure_ok.mp hafter⟩
      · rintro ⟨_, ids, new, ⟨⟩, hids, hmanaged, hnew, hafter⟩
        refine ⟨ids, hids, ?_⟩
        rw [if_neg hmanaged]
        exact bind_ok.mpr ⟨new, hnew, pure_ok.mpr hafter⟩

/-- What every request but an edit does: rows stay, go, or come without the column of the
first release. -/
structure KeepsRows (db after : Db) : Prop where
  columns : after.columns = db.columns
  rows : ∀ kind, ∀ row ∈ after.rows kind, row ∈ db.rows kind ∨ row.zoneId = none

namespace KeepsRows

/-- What has the same rows and columns keeps the rows. -/
theorem of_rows {after : Db} (hcolumns : after.columns = db.columns)
    (hrows : after.rows = db.rows) : KeepsRows db after :=
  ⟨hcolumns, fun kind row hrow => .inl (by rwa [hrows] at hrow)⟩

/-- New rows of a kind keep the rows, if they are old ones or have no zone. -/
theorem setRows {kind : RowKind} {rows : List StoredRow}
    (h : ∀ row ∈ rows, row ∈ db.rows kind ∨ row.zoneId = none) :
    KeepsRows db (db.setRows kind rows) := by
  refine ⟨rfl, fun other row hrow => ?_⟩
  by_cases heq : other = kind
  · subst heq
    rw [Db.setRows_self] at hrow
    exact h row hrow
  · rw [Db.setRows_of_ne db heq] at hrow
    exact .inl hrow

/-- A request that may be refused keeps the rows, if it does where it is not. -/
theorem orKeep {answer : Except HttpError Db}
    (h : ∀ after, answer = .ok after → KeepsRows db after) :
    KeepsRows db (Migration.orKeep db answer) := by
  cases answer with
  | ok after => exact h after rfl
  | error e => exact of_rows rfl rfl

end KeepsRows

/-- Every request but an edit of a row keeps the rows. -/
theorem keepsRows_apply (op : Op) (hop : ∀ kind id data, op ≠ .updateRow kind id data) :
    KeepsRows db (apply slugify db op) := by
  cases op with
  | updateRow kind id data => exact (hop kind id data rfl).elim
  | createRow kind payload =>
      refine KeepsRows.orKeep fun after h => ?_
      simp only [createRow, bind_ok, pure_ok] at h
      obtain ⟨scope, -, ⟨⟩, -, ⟨⟩, -, rfl⟩ := h
      refine KeepsRows.setRows fun row hrow => ?_
      rcases List.mem_append.mp hrow with hold | hnew
      · exact .inl hold
      · rw [List.mem_singleton.mp hnew]
        exact .inr rfl
  | deleteRow kind id =>
      refine KeepsRows.orKeep fun after h => ?_
      unfold deleteRow at h
      split at h
      · cases h
      · obtain ⟨ids, -, h⟩ := bind_ok.mp h
        split at h
        · cases h
        · obtain rfl := pure_ok.mp h
          exact KeepsRows.setRows fun row hrow => .inl (List.mem_filter.mp hrow).1
  | createZone name slug =>
      refine KeepsRows.orKeep fun after h => ?_
      unfold createZone at h
      dsimp only at h
      split at h
      · cases h
      · obtain rfl := Except.ok.inj h
        exact .of_rows rfl rfl
  | updateZone id name slug others =>
      refine KeepsRows.orKeep fun after h => ?_
      unfold updateZone at h
      split at h
      · obtain ⟨⟨⟩, -, h⟩ := bind_ok.mp h
        obtain rfl := pure_ok.mp h
        exact .of_rows rfl rfl
      · cases h
  | deleteZone id =>
      refine KeepsRows.orKeep fun after h => ?_
      unfold deleteZone at h
      split at h
      · cases h
      split at h
      · cases h
      split at h
      · cases h
      obtain ⟨records, -, h⟩ := bind_ok.mp h
      split at h
      · cases h
      obtain ⟨upstreams, -, h⟩ := bind_ok.mp h
      split at h
      · cases h
      obtain ⟨forwardZones, -, h⟩ := bind_ok.mp h
      split at h
      · cases h
      split at h
      · cases h
      obtain rfl := pure_ok.mp h
      exact .of_rows rfl rfl
  | others servers agents balancers overrides tokens => exact .of_rows rfl rfl

/-- What an accepted edit leaves in the table: the row it writes, and rows of before. -/
theorem mem_rows_edit {kind : RowKind} {row : StoredRow} {ids : Option (List Int)}
    {new : ScopedRow} (hrow : row ∈ db.rows kind) (other : StoredRow) :
    other ∈ putRow StoredRow.id (row.flush ids new) (db.rows kind) ↔
      other = row.flush ids new ∨ (other ∈ db.rows kind ∧ other.id ≠ row.id) :=
  mem_putRow (List.mem_map.mpr ⟨row, hrow, rfl⟩)

/-- What keeps the rows keeps a table filled. -/
theorem backfilled_of_keepsRows {after : Db} (h : KeepsRows db after) {table : String}
    (hdb : Backfilled table db) : Backfilled table after := by
  intro hholds kind hkind row hrow
  rw [h.columns] at hholds
  rcases h.rows kind row hrow with hold | hnone
  · exact hdb hholds kind hkind row hold
  · exact fun hunmigrated => hunmigrated.1 hnone

/-- The schema is no request's business. -/
theorem migrated_iff_backfilled {after : Db} (h : Migrated db)
    (hcolumns : after.columns = db.columns) :
    Migrated after ↔ ∀ table ∈ zoneIdBackfill, Backfilled table after := by
  refine and_iff_right ?_
  simpa only [Created, Complete, hcolumns] using h.1

/-- The list of a migrated row that has an old zone is there. -/
theorem loaded_of_legacy {kind : RowKind} {row : StoredRow} (hlegacy : Legacy db kind row)
    (hmigrated : ¬ row.Unmigrated) {ids : Option (List Int)} (hids : row.loaded = .ok ids) :
    ∃ list, ids = some list := by
  unfold StoredRow.loaded at hids
  split at hids
  · next hnone => exact (hmigrated ⟨hlegacy.2.2, .inl hnone⟩).elim
  · split at hids
    · next list _ => exact ⟨list, (Except.ok.inj hids).symm⟩
    · cases hids

/-- An accepted edit that detaches a row leaves it in the form of the first release. -/
theorem unmigrated_of_detaches {kind : RowKind} {id : Int} {data : RowUpdate} (h : Migrated db)
    (hdetaches : Detaches db (.updateRow kind id data)) :
    ∃ after, updateRow db kind id data = .ok after ∧ ¬ Migrated after := by
  obtain ⟨row, ids, hfind, hlegacy, hids, hne, hmanaged, hleaves⟩ := hdetaches
  obtain ⟨new, hnew, hempty⟩ := editedRow_emptied_iff.mpr hleaves
  have hrow : row ∈ db.rows kind := List.mem_of_find?_eq_some hfind
  have hold : ¬ row.Unmigrated := h.2 _ hlegacy.1 hlegacy.2.1 kind rfl row hrow
  refine ⟨_, updateRow_ok.mpr ⟨row, _, new, hfind, hids, hmanaged, hnew, rfl⟩, fun hafter => ?_⟩
  refine hafter.2 _ hlegacy.1 hlegacy.2.1 kind rfl (row.flush (some ids) new) ?_ ?_
  · rw [Db.setRows_self, mem_rows_edit hrow]
    exact .inl rfl
  · exact (flush_unmigrated_iff hold).mpr ⟨hlegacy.2.2, hempty, by simpa using hne⟩

/-- Any other accepted edit leaves nothing to backfill. -/
theorem backfilled_updateRow {after : Db} {kind : RowKind} {id : Int} {data : RowUpdate}
    (h : Migrated db) (hupdate : updateRow db kind id data = .ok after)
    (hkept : ¬ Detaches db (.updateRow kind id data)) :
    ∀ table ∈ zoneIdBackfill, Backfilled table after := by
  obtain ⟨row, ids, new, hfind, hids, hmanaged, hnew, rfl⟩ := updateRow_ok.mp hupdate
  have hrow : row ∈ db.rows kind := List.mem_of_find?_eq_some hfind
  intro table htable hholds other hother changed hchanged
  have hold := h.2 table htable hholds other hother
  by_cases hkind : other = kind
  · subst hkind
    rw [Db.setRows_self, mem_rows_edit hrow] at hchanged
    rcases hchanged with rfl | ⟨hmem, -⟩
    · intro hunmigrated
      have hlegacy : Legacy db other row := by
        refine ⟨?_, ?_, hunmigrated.1⟩ <;> rwa [hother]
      obtain ⟨list, rfl⟩ := loaded_of_legacy hlegacy (hold row hrow) hids
      obtain ⟨-, hempty, hne⟩ := (flush_unmigrated_iff (hold row hrow)).mp hunmigrated
      exact hkept ⟨row, list, hfind, hlegacy, hids, by simpa using hne, hmanaged,
        editedRow_emptied_iff.mp ⟨new, hnew, hempty⟩⟩
    · exact hold changed hmem
  · rw [Db.setRows_of_ne db hkind] at hchanged
    exact hold changed hchanged

/-- **One request.**  After it the migration finds nothing to do, unless it detaches a row. -/
theorem initDb_apply_iff (db : Db) (op : Op) (h : initDb db = db) :
    initDb (apply slugify db op) = apply slugify db op ↔ ¬ Detaches db op := by
  rw [settling_initDb.eq_self_iff] at h ⊢
  by_cases hupdate : ∃ kind id data, op = .updateRow kind id data
  · obtain ⟨kind, id, data, rfl⟩ := hupdate
    constructor
    · intro hafter hdetaches
      obtain ⟨after, hok, hnot⟩ := unmigrated_of_detaches h hdetaches
      rw [apply, hok] at hafter
      exact hnot hafter
    · intro hkept
      cases hanswer : updateRow db kind id data with
      | error e => simpa [apply, hanswer, orKeep] using h
      | ok after =>
          have hcolumns : after.columns = db.columns := by
            obtain ⟨row, ids, new, -, -, -, -, hafter⟩ := updateRow_ok.mp hanswer
            rw [← hafter]
            rfl
          simp only [apply, hanswer, orKeep]
          exact (migrated_iff_backfilled h hcolumns).mpr (backfilled_updateRow h hanswer hkept)
  · have hkeeps : KeepsRows db (apply slugify db op) :=
      keepsRows_apply slugify op fun kind id data heq => hupdate ⟨kind, id, data, heq⟩
    refine iff_of_true ?_ ?_
    · exact (migrated_iff_backfilled h hkeeps.columns).mpr fun table htable =>
        backfilled_of_keepsRows hkeeps (h.2 table htable)
    · intro hdetaches
      cases op with
      | updateRow kind id data => exact hupdate ⟨kind, id, data, rfl⟩
      | _ => exact hdetaches

/-- **When a restart changes nothing.**  In every run from the first start of any database, a
further `init_db` changes nothing in any state exactly when no request of the run takes a row
that still has its old `zone_id`, and a list of zones, out of zone scope. -/
theorem settled_throughout_iff (db : Db) (ops : List Op) :
    Throughout (apply slugify) (fun s => initDb s = s) (initDb db) ops ↔
      Along (apply slugify) (fun s op => ¬ Detaches s op) (initDb db) ops :=
  throughout_iff_along (apply slugify) (initDb_apply_iff slugify) (initDb_initDb db) ops

/-- A database of the first release: a zone, and a record for it. -/
def firstRelease : Db where
  columns table :=
    [("zone", ["id", "name", "slug"]),
      ("dnsrecord", ["id", "domain", "answer", "scope", "zone_id", "enabled"])].lookup table
  zones := [⟨3, "iot", "iot"⟩]
  servers := []
  agents := []
  balancers := []
  overrides := []
  tokens := []
  rows
    | .record => [⟨1, .zone, some 3, none, none, false⟩]
    | _ => []

/-- The record made global. -/
def makeGlobal : Op := .updateRow .record 1 ⟨some (some .global), none, none, .ok ()⟩

/-- After a restart the global record is back in zone 3. -/
theorem global_record_regains_zone :
    ¬ ∀ (db : Db) (ops : List Op),
      initDb (after (apply id) (initDb db) ops) = after (apply id) (initDb db) ops := by
  intro h
  have hrows := congrArg (fun db : Db => (db.rows .record).map (·.zoneIds))
    (h firstRelease [makeGlobal])
  revert hrows
  decide +kernel

end AdguardAdmin.Migration
