import AdguardAdmin.Registry
import AdguardAdmin.Validators
/-!
# Writes of the compatible API

The AdGuard-compatible API is served for the fleet, for one zone and for one server.
Filter lists and rewrites that are written there become rows of the database.  A new row
belongs to the scope of the request; which rows are removed or edited is a query of its
own for each request, and the one that deletes rewrites does not look at the scope.

`confined_iff` says which writes through a zone leave every server outside of it with the
state it should have.
-/

namespace AdguardAdmin.Compat

open PyText Registry

/-! ## Rows and scopes -/

/-- Managed records are maintained from the list of servers. -/
structure Record extends DNSRecord where
  managed : Bool
  deriving DecidableEq, Repr

structure Db where
  servers : List Server
  records : List Record
  upstreams : List Upstream
  forwardZones : List ForwardZone
  filterLists : List FilterList
  blockedServices : List BlockedService
  deriving DecidableEq, Repr

/-- What the sync reads. -/
def Db.config (db : Db) : ConfigTables where
  records := db.records.map (·.toDNSRecord)
  upstreams := db.upstreams
  forwardZones := db.forwardZones
  filterLists := db.filterLists
  blockedServices := db.blockedServices

/-- Which servers, and which desired records, one `/control` tree covers. -/
structure Scope where
  zoneId : Option Nat
  serverId : Option Nat
  deriving DecidableEq, Repr

/-- The scope of `/zone/{slug}/control`. -/
def zoneScope (zoneId : Nat) : Scope := ⟨some zoneId, none⟩

/-- Where a row created through this API belongs. -/
def scopeFields (scope : Scope) : Scoped :=
  match scope.serverId, scope.zoneId with
  | some id, _ => ⟨.server, [], some id⟩
  | none, some zid => ⟨.zone, [zid], none⟩
  | none, none => ⟨.global, [], none⟩

def rowInScope (row : Scoped) (scope : Scope) : Bool :=
  match scope.serverId, scope.zoneId with
  | some id, _ => row.serverId = some id
  | none, some zid => zid ∈ row.zoneIds
  | none, none => row.scope = .global

/-! ## Requests -/

/-- A write with its arguments. -/
inductive Write where
  | addUrl (url name : String) (whitelist : Bool)
  | removeUrl (url : String) (whitelist : Bool)
  | setUrl (url : String) (whitelist enabled : Bool) (newName newUrl : String)
  | rewriteAdd (domain answer : String)
  | rewriteDelete (domain answer : String)
  deriving DecidableEq, Repr

def kindOf (whitelist : Bool) : FilterKind := if whitelist then .allowlist else .blocklist

/-- `validate_display_name`. -/
def validateDisplayName (value : String) : Except HttpError String :=
  let name := strip value
  if name = "" then .error ⟨400, "name must not be empty"⟩
  else if 100 < name.length then .error ⟨400, "name must be at most 100 characters"⟩
  else if Validators.hasControlChar name then
    .error ⟨400, "name must not contain control characters"⟩
  else .ok name

def validName (value fallback : String) : Except HttpError String :=
  if strip value = "" then .ok fallback else validateDisplayName value

/-! ## Texts in the details of errors -/

def hexPadded (width n : Nat) : List Char :=
  List.replicate (width - (Nat.toDigits 16 n).length) '0' ++ Nat.toDigits 16 n

/-- A character as Python's `repr` writes it between the quotes `quote`.  Beyond ASCII it is
`str.isprintable` that says which ones are escaped. -/
def reprChar (isPrintable : Char → Bool) (quote c : Char) : List Char :=
  if c = quote ∨ c = '\\' then ['\\', c]
  else if c = '\t' then ['\\', 't']
  else if c = '\n' then ['\\', 'n']
  else if c = '\r' then ['\\', 'r']
  else if 0x20 ≤ c.toNat ∧ c.toNat < 0x7f ∨ 0x7f < c.toNat ∧ isPrintable c then [c]
  else if c.toNat < 0x100 then '\\' :: 'x' :: hexPadded 2 c.toNat
  else if c.toNat < 0x10000 then '\\' :: 'u' :: hexPadded 4 c.toNat
  else '\\' :: 'U' :: hexPadded 8 c.toNat

/-- Python's `repr` of a text: in double quotes where that saves escaping single ones. -/
def reprText (isPrintable : Char → Bool) (text : String) : String :=
  let quote := if '\'' ∈ text.toList ∧ '"' ∉ text.toList then '"' else '\''
  String.ofList (quote :: text.toList.flatMap (reprChar isPrintable quote) ++ [quote])

example : reprText (fun _ => true) "it's\n" = "\"it's\\n\"" := by decide +kernel

/-- The value of a `FilterKind`. -/
def kindValue : FilterKind → String
  | .blocklist => "blocklist"
  | .allowlist => "allowlist"

/-- `no {kind.value} subscribed for {body.url!r}`. -/
def notSubscribed (isPrintable : Char → Bool) (kind : FilterKind) (url : String) : String :=
  "no " ++ kindValue kind ++ " subscribed for " ++ reprText isPrintable url

section Handlers

-- Python's `str.lower`, and its `str.isprintable` for one character.
variable (lower : String → String) (isPrintable : Char → Bool)

/-- Only http(s) subscriptions. -/
def validateListUrl (url : String) : Except HttpError String :=
  let text := strip url
  if "http://".toList.isPrefixOf (lower text).toList ∨
      "https://".toList.isPrefixOf (lower text).toList then .ok text
  else .error ⟨400,
    "url must be an http(s) filter-list URL; local paths are not supported here"⟩

/-- The rows that a URL names in a scope. -/
def named (scope : Scope) (kind : FilterKind) (url : String) (f : FilterList) : Bool :=
  f.kind = kind && lower (strip f.url) = lower (strip url) && rowInScope f.toScoped scope

def filteringAddUrl (scope : Scope) (url name : String) (whitelist : Bool) (db : Db) :
    Except HttpError Db := do
  let text ← validateListUrl lower url
  let name ← validName name text
  if db.filterLists.any (named lower scope (kindOf whitelist) text) then
    .error ⟨400, "that filter list is already subscribed"⟩
  else
    let row : FilterList :=
      { scopeFields scope with name := name, url := text, kind := kindOf whitelist, enabled := true }
    return { db with filterLists := db.filterLists ++ [row] }

def filteringRemoveUrl (scope : Scope) (url : String) (whitelist : Bool) (db : Db) : Db :=
  { db with
    filterLists := db.filterLists.filter fun f => !named lower scope (kindOf whitelist) url f }

def editName (newName : String) (row : FilterList) : Except HttpError String :=
  if strip newName = "" then .ok row.name else validName newName row.name

def editUrl (newUrl : String) (row : FilterList) : Except HttpError String :=
  if strip newUrl = "" then .ok row.url else validateListUrl lower newUrl

/-- The edit of one row. -/
def editRow (enabled : Bool) (newName newUrl : String) (row : FilterList) :
    Except HttpError FilterList := do
  let name ← editName newName row
  let url ← editUrl lower newUrl row
  return { row with enabled := enabled, name := name, url := url }

/-- A row that is refused leaves all of them as they were. -/
def filteringSetUrl (scope : Scope) (url : String) (whitelist enabled : Bool)
    (newName newUrl : String) (db : Db) : Except HttpError Db := do
  if db.filterLists.any (named lower scope (kindOf whitelist) url) then
    let rows ← db.filterLists.mapM fun f =>
      if named lower scope (kindOf whitelist) url f then editRow lower enabled newName newUrl f
      else .ok f
    return { db with filterLists := rows }
  else .error ⟨404, notSubscribed isPrintable (kindOf whitelist) url⟩

/-- Where a new record belongs: a server's records are those of its zone. -/
def recordFields (scope : Scope) (db : Db) : RecordScope × List Nat :=
  match scope.serverId, scope.zoneId with
  | some id, _ =>
      match (db.servers.find? (·.id = id)).bind (·.zoneId) with
      | some zid => (.zone, [zid])
      | none => (.global, [])
  | none, some zid => (.zone, [zid])
  | none, none => (.global, [])

def rewriteAdd (scope : Scope) (domain answer : String) (db : Db) : Except HttpError Db :=
  let domain := lower (strip domain)
  let answer := strip answer
  if domain = "" ∨ answer = "" then .error ⟨400, "domain and answer are both required"⟩
  else if db.records.any fun r => r.domain = domain && r.answer = answer then
    .error ⟨400, "that rewrite already exists"⟩
  else
    let (recordScope, zoneIds) := recordFields scope db
    .ok { db with records := db.records ++ [⟨⟨domain, answer, recordScope, zoneIds, true⟩, false⟩] }

/-- The rows of a rewrite, of whatever scope. -/
def ofRewrite (domain answer : String) (r : Record) : Bool :=
  r.domain = lower (strip domain) && r.answer = strip answer

def rewriteDelete (domain answer : String) (db : Db) : Except HttpError Db :=
  if db.records.any fun r => ofRewrite lower domain answer r && r.managed then
    .error ⟨409, "that rewrite is auto-managed from the servers list"⟩
  else .ok { db with records := db.records.filter fun r => !ofRewrite lower domain answer r }

def handle (scope : Scope) (db : Db) : Write → Except HttpError Db
  | .addUrl url name whitelist => filteringAddUrl lower scope url name whitelist db
  | .removeUrl url whitelist => .ok (filteringRemoveUrl lower scope url whitelist db)
  | .setUrl url whitelist enabled newName newUrl =>
      filteringSetUrl lower isPrintable scope url whitelist enabled newName newUrl db
  | .rewriteAdd domain answer => rewriteAdd lower scope domain answer db
  | .rewriteDelete domain answer => rewriteDelete lower domain answer db

/-- The database after a request; a refused one commits nothing. -/
def served (scope : Scope) (db : Db) (w : Write) : Db :=
  match handle lower isPrintable scope db w with
  | .ok after => after
  | .error _ => db

/-! ## Confinement -/

/-- The same rewrites, filter lists and blocked services. -/
structure SameState (before after : ServerPlan) : Prop where
  rewrites : ∀ r, r ∈ before.rewrites ↔ r ∈ after.rewrites
  filters : ∀ kind, before.filters kind = after.filters kind
  blockedServices : before.blockedServices = after.blockedServices

/-- A write through a zone does not change what servers outside of it should have. -/
def Confined (zoneId : Nat) (db : Db) (w : Write) : Prop :=
  ∀ server ∈ db.servers, server.zoneId ≠ some zoneId →
    SameState (buildPlan db.config server)
      (buildPlan (served lower isPrintable (zoneScope zoneId) db w).config server)

/-- Whether a record applies to a server. -/
def recordApplies (rec : DNSRecord) (server : Server) : Bool :=
  rec.enabled && match rec.scope with
    | .global => true
    | .zone => match server.zoneId with
      | none => false
      | some zid => decide (zid ∈ rec.zoneIds)

/-- What a filter list contributes to a server's plan. -/
def line (server : Server) (f : FilterList) : Option FilterSpec :=
  if server.manageFiltering && scopeMatches f.toScoped server && strip f.url ≠ "" then
    some ⟨f.name, f.url, f.enabled⟩
  else none

/-- The rows a write removes apply to no server outside of the zone, and the rows it
edits contribute to those servers what they did before. -/
def Spares (zoneId : Nat) (db : Db) : Write → Prop
  | .addUrl .. => True
  | .removeUrl url whitelist =>
      ∀ server ∈ db.servers, server.zoneId ≠ some zoneId → ∀ f ∈ db.filterLists,
        named lower (zoneScope zoneId) (kindOf whitelist) url f = true → line server f = none
  | .setUrl url whitelist enabled newName newUrl =>
      ∀ server ∈ db.servers, server.zoneId ≠ some zoneId → ∀ f ∈ db.filterLists,
        named lower (zoneScope zoneId) (kindOf whitelist) url f = true →
          ∀ g, editRow lower enabled newName newUrl f = .ok g → line server g = line server f
  | .rewriteAdd .. => True
  | .rewriteDelete domain answer =>
      (∃ r ∈ db.records, ofRewrite lower domain answer r = true ∧ r.managed = true) ∨
        ∀ server ∈ db.servers, server.zoneId ≠ some zoneId → ∀ r ∈ db.records,
          ofRewrite lower domain answer r = true → recordApplies r.toDNSRecord server = false

end Handlers

/-! ## Lists whose entries are dropped or changed -/

/-- Entries that a list gains or changes show in it. -/
theorem filterMap_eq_iff {α β : Type} {p q : α → Option β} {l : List α}
    (hmore : ∀ a ∈ l, p a ≠ none → q a ≠ none) :
    l.filterMap p = l.filterMap q ↔ ∀ a ∈ l, p a = q a := by
  constructor
  · have hlength : ∀ k : List α, (∀ a ∈ k, p a ≠ none → q a ≠ none) →
        (k.filterMap p).length ≤ (k.filterMap q).length := by
      intro k hk
      induction k with
      | nil => simp
      | cons a rest ih =>
          have hrest := ih fun b hb => hk b (List.mem_cons_of_mem _ hb)
          have ha := hk a List.mem_cons_self
          cases hp : p a with
          | none =>
              cases hq : q a with
              | none => simpa [hp, hq] using hrest
              | some c =>
                  simp only [List.filterMap_cons, hp, hq, List.length_cons]
                  omega
          | some b =>
              cases hq : q a with
              | none => exact absurd hq (ha (by simp [hp]))
              | some c => simpa [hp, hq] using hrest
    induction l with
    | nil => simp
    | cons a rest ih =>
        have hrest : ∀ b ∈ rest, p b ≠ none → q b ≠ none := fun b hb =>
          hmore b (List.mem_cons_of_mem _ hb)
        intro h
        have htail := ih hrest
        cases hp : p a with
        | none =>
            cases hq : q a with
            | none =>
                simp only [List.filterMap_cons, hp, hq] at h
                simpa [hp, hq] using htail h
            | some c =>
                -- the list would have grown
                simp only [List.filterMap_cons, hp, hq] at h
                have hlonger := hlength rest hrest
                rw [h, List.length_cons] at hlonger
                omega
        | some b =>
            cases hq : q a with
            | none => exact absurd hq (hmore a List.mem_cons_self (by simp [hp]))
            | some c =>
                simp only [List.filterMap_cons, hp, hq, List.cons.injEq] at h
                obtain ⟨rfl, h⟩ := h
                simpa [hp, hq] using htail h
  · intro h
    exact List.filterMap_congr h

/-! ## What servers outside of the zone get -/

section Outside

variable {lower : String → String} {isPrintable : Char → Bool} {zoneId : Nat} {db : Db}
  {server : Server}

/-- The desired rewrites are those of the records that apply. -/
theorem mem_desiredRewrites {config : ConfigTables} {r : Rewrite} :
    r ∈ desiredRewritesForServer config server ↔
      ∃ rec ∈ config.records, recordApplies rec server = true ∧ ⟨rec.domain, rec.answer⟩ = r := by
  simp only [desiredRewritesForServer, List.mem_dedup, List.mem_map, List.mem_filter, and_assoc]
  exact Iff.rfl

/-- The lists of a plan are those that contribute to it, kind by kind. -/
theorem plan_filters {config : ConfigTables} (kind : FilterKind) :
    (buildPlan config server).filters kind =
      config.filterLists.filterMap fun f => if f.kind = kind then line server f else none := by
  simp only [buildPlan]
  cases hmanaged : server.manageFiltering with
  | false => simp [line, hmanaged]
  | true =>
      rw [if_pos rfl, filtersForServer, ← List.filterMap_eq_map, ← List.filterMap_eq_filter,
        List.filterMap_filterMap]
      refine List.filterMap_congr fun f _ => ?_
      by_cases hkind : f.kind = kind
      · by_cases hscope : scopeMatches f.toScoped server = true
        · by_cases hurl : strip f.url = ""
          · simp [line, Option.guard, hurl]
          · simp [line, hmanaged, Option.guard, hkind, hscope, hurl]
        · simp [line, Option.guard, hscope]
      · simp [Option.guard, hkind]

/-- A write that only changes filter lists keeps the state exactly when it keeps the lists. -/
theorem sameState_of_lists {lists : List FilterList} :
    SameState (buildPlan db.config server)
        (buildPlan { db with filterLists := lists }.config server) ↔
      ∀ kind, (buildPlan db.config server).filters kind =
        (buildPlan { db with filterLists := lists }.config server).filters kind :=
  ⟨fun h => h.filters, fun h => ⟨fun _ => Iff.rfl, h, rfl⟩⟩

/-- A write that only changes records keeps the state exactly when it keeps the rewrites. -/
theorem sameState_of_records {records : List Record} :
    SameState (buildPlan db.config server)
        (buildPlan { db with records := records }.config server) ↔
      ∀ r, r ∈ desiredRewritesForServer db.config server ↔
        r ∈ desiredRewritesForServer { db with records := records }.config server :=
  ⟨fun h => h.rewrites, fun h => ⟨h, fun _ => rfl, rfl⟩⟩

/-- A list of the zone reaches nobody outside of it. -/
theorem line_zone {f : FilterList} (hf : f.toScoped = scopeFields (zoneScope zoneId))
    (houtside : server.zoneId ≠ some zoneId) : line server f = none := by
  have hscope : scopeMatches f.toScoped server = false := by
    rw [hf]
    cases hzone : server.zoneId with
    | none => simp [scopeFields, zoneScope, scopeMatches, hzone]
    | some zid =>
        have hne : zid ≠ zoneId := fun heq => houtside (heq ▸ hzone)
        simp [scopeFields, zoneScope, scopeMatches, hzone, hne]
  simp [line, hscope]

theorem SameState.refl (plan : ServerPlan) : SameState plan plan :=
  ⟨fun _ => Iff.rfl, fun _ => rfl, rfl⟩

/-- A refused write changes nothing. -/
theorem confined_of_refused {w : Write} {e : HttpError}
    (h : handle lower isPrintable (zoneScope zoneId) db w = .error e) :
    Confined lower isPrintable zoneId db w := by
  intro server _ _
  simp only [served, h]
  exact SameState.refl _

/-- An accepted write leaves what its handler returns. -/
theorem served_ok {w : Write} {after : Db}
    (h : handle lower isPrintable (zoneScope zoneId) db w = .ok after) :
    served lower isPrintable (zoneScope zoneId) db w = after := by
  simp only [served, h]

/-- A write that changes filter lists one by one, and takes none of them from a plan that
it did not touch. -/
theorem sameState_map {edit : FilterList → Option FilterList}
    (hkind : ∀ f g, edit f = some g → g.kind = f.kind)
    (hmono : (∀ f ∈ db.filterLists, line server f ≠ none → (edit f).bind (line server) ≠ none) ∨
      ∀ f ∈ db.filterLists, (edit f).bind (line server) ≠ none → line server f ≠ none) :
    SameState (buildPlan db.config server)
        (buildPlan { db with filterLists := db.filterLists.filterMap edit }.config server) ↔
      ∀ f ∈ db.filterLists, (edit f).bind (line server) = line server f := by
  have hplan : ∀ kind,
      (buildPlan { db with filterLists := db.filterLists.filterMap edit }.config server).filters kind =
        db.filterLists.filterMap fun f =>
          if f.kind = kind then (edit f).bind (line server) else none := by
    intro kind
    rw [plan_filters]
    simp only [Db.config, List.filterMap_filterMap]
    refine List.filterMap_congr fun f _ => ?_
    cases hedit : edit f with
    | none => simp
    | some g => simp [hkind f g hedit]
  rw [sameState_of_lists]
  constructor
  · intro h f hf
    have hlists := h f.kind
    rw [hplan, plan_filters] at hlists
    rcases hmono with hmono | hmono
    · have hpoint := (filterMap_eq_iff fun a ha hne => ?_).mp hlists f hf
      · simpa using hpoint.symm
      · by_cases hsame : a.kind = f.kind
        · simpa [hsame] using hmono a ha (by simpa [hsame] using hne)
        · simp [hsame] at hne
    · have hpoint := (filterMap_eq_iff fun a ha hne => ?_).mp hlists.symm f hf
      · simpa using hpoint
      · by_cases hsame : a.kind = f.kind
        · simpa [hsame] using hmono a ha (by simpa [hsame] using hne)
        · simp [hsame] at hne
  · intro h kind
    rw [hplan, plan_filters]
    refine List.filterMap_congr fun f hf => ?_
    rw [h f hf]

/-- A new list stays inside of its zone. -/
theorem addUrl_confined {url name : String} {whitelist : Bool} :
    Confined lower isPrintable zoneId db (.addUrl url name whitelist) := by
  cases hresult : handle lower isPrintable (zoneScope zoneId) db (.addUrl url name whitelist) with
  | error e => exact confined_of_refused hresult
  | ok after =>
      intro server _ houtside
      rw [served_ok hresult]
      simp only [handle, filteringAddUrl, GoText.bind_ok] at hresult
      obtain ⟨text, -, shown, -, hresult⟩ := hresult
      split at hresult
      · cases hresult
      · obtain rfl := Except.ok.inj hresult
        refine sameState_of_lists.mpr fun kind => ?_
        rw [plan_filters, plan_filters]
        simp only [Db.config, List.filterMap_append]
        rw [List.filterMap_cons_none, List.filterMap_nil, List.append_nil]
        split
        · exact line_zone rfl houtside
        · rfl

/-- Lists that are removed stay inside when they are nobody else's. -/
theorem removeUrl_confined_iff {url : String} {whitelist : Bool} :
    Confined lower isPrintable zoneId db (.removeUrl url whitelist) ↔
      Spares lower zoneId db (.removeUrl url whitelist) := by
  refine forall₃_congr fun server _ _ => ?_
  have hfilter : served lower isPrintable (zoneScope zoneId) db (.removeUrl url whitelist) =
      { db with filterLists := db.filterLists.filterMap fun f =>
          if named lower (zoneScope zoneId) (kindOf whitelist) url f then none else some f } := by
    simp only [served, handle, filteringRemoveUrl, ← List.filterMap_eq_filter]
    congr 1
    refine List.filterMap_congr fun f _ => ?_
    cases hnamed : named lower (zoneScope zoneId) (kindOf whitelist) url f with
    | true => simp [Option.guard, hnamed]
    | false => simp [Option.guard, hnamed]
  rw [hfilter, sameState_map]
  · refine forall₂_congr fun f _ => ?_
    cases named lower (zoneScope zoneId) (kindOf whitelist) url f with
    | true => simp [eq_comm]
    | false => simp
  · intro f g hedit
    split at hedit
    · cases hedit
    · exact (Option.some.inj hedit) ▸ rfl
  · refine .inr fun f _ hne => ?_
    split at hne
    · exact absurd rfl hne
    · exact hne

/-- What an edit is checked for does not depend on the row. -/
def checkEdit (lower : String → String) (newName newUrl : String) :
    Except HttpError (Option String × Option String) := do
  let name ← (if strip newName = "" then .ok none else (validateDisplayName newName).map some)
  let url ← (if strip newUrl = "" then .ok none else (validateListUrl lower newUrl).map some)
  return (name, url)

def applyEdit (enabled : Bool) (c : Option String × Option String) (row : FilterList) :
    FilterList :=
  { row with enabled := enabled, name := c.1.getD row.name, url := c.2.getD row.url }

/-- An edit is checked once and applied to each row. -/
theorem editRow_eq {enabled : Bool} {newName newUrl : String} (row : FilterList) :
    editRow lower enabled newName newUrl row =
      (checkEdit lower newName newUrl).map fun c => applyEdit enabled c row := by
  unfold editRow checkEdit editName editUrl validName
  by_cases hname : strip newName = ""
  · by_cases hurl : strip newUrl = ""
    · simp only [hname, hurl, if_true]
      rfl
    · simp only [hname, hurl, if_true, if_false]
      cases validateListUrl lower newUrl <;> rfl
  · simp only [hname, if_false]
    cases validateDisplayName newName with
    | error e => rfl
    | ok name =>
        by_cases hurl : strip newUrl = ""
        · simp only [hurl, if_true]
          rfl
        · simp only [hurl, if_false]
          cases validateListUrl lower newUrl <;> rfl

/-- An accepted edit leaves no list without a URL that had one. -/
theorem applyEdit_url {enabled : Bool} {newName newUrl : String}
    {c : Option String × Option String} (hc : checkEdit lower newName newUrl = .ok c)
    {f : FilterList} (hurl : strip f.url ≠ "") : strip (applyEdit enabled c f).url ≠ "" := by
  unfold checkEdit at hc
  obtain ⟨name, -, hc⟩ := GoText.bind_ok.mp hc
  obtain ⟨url, hnew, hc⟩ := GoText.bind_ok.mp hc
  obtain rfl := GoText.pure_ok.mp hc
  by_cases hblank : strip newUrl = ""
  · rw [if_pos hblank] at hnew
    obtain rfl := Except.ok.inj hnew
    exact hurl
  · rw [if_neg hblank] at hnew
    unfold validateListUrl at hnew
    dsimp only at hnew
    split at hnew
    · obtain rfl := Except.ok.inj hnew
      exact strip_strip_ne_empty hblank
    · cases hnew

/-- An accepted edit takes no list from anyone. -/
theorem line_applyEdit {enabled : Bool} {newName newUrl : String}
    {c : Option String × Option String} (hc : checkEdit lower newName newUrl = .ok c)
    {f : FilterList} (hline : line server f ≠ none) :
    line server (applyEdit enabled c f) ≠ none := by
  unfold line at hline ⊢
  have hshown : (server.manageFiltering && scopeMatches f.toScoped server && strip f.url ≠ "") =
      true := by
    by_contra hnot
    rw [if_neg hnot] at hline
    exact hline rfl
  simp only [Bool.and_eq_true, decide_eq_true_eq] at hshown
  have hurl : strip (applyEdit enabled c f).url ≠ "" := applyEdit_url hc hshown.2
  rw [if_pos]
  · simp
  · simp only [Bool.and_eq_true, decide_eq_true_eq]
    exact ⟨⟨hshown.1.1, hshown.1.2⟩, hurl⟩

/-- Lists that are edited stay inside when the others see no change. -/
theorem setUrl_confined_iff {url newName newUrl : String} {whitelist enabled : Bool} :
    Confined lower isPrintable zoneId db (.setUrl url whitelist enabled newName newUrl) ↔
      Spares lower zoneId db (.setUrl url whitelist enabled newName newUrl) := by
  let touched := named lower (zoneScope zoneId) (kindOf whitelist) url
  by_cases hany : db.filterLists.any touched = true
  · cases hcheck : checkEdit lower newName newUrl with
    | error e =>
        -- the first row that is named refuses the edit, and so would the others
        have hrefuse : ∀ f, editRow lower enabled newName newUrl f = .error e := fun f => by
          rw [editRow_eq, hcheck]
          rfl
        refine iff_of_true ?_ fun server _ _ f _ _ g hg => nomatch (hrefuse f).symm.trans hg
        cases hresult : handle lower isPrintable (zoneScope zoneId) db
            (.setUrl url whitelist enabled newName newUrl) with
        | error _ => exact confined_of_refused hresult
        | ok after =>
            simp only [handle, filteringSetUrl] at hresult
            rw [if_pos hany] at hresult
            obtain ⟨rows, hrows, -⟩ := GoText.bind_ok.mp hresult
            obtain ⟨f, hf, hnamed⟩ := List.any_eq_true.mp hany
            obtain ⟨g, hg⟩ := GoText.accepts_mapM.mp ⟨rows, hrows⟩ f hf
            rw [if_pos hnamed, hrefuse f] at hg
            cases hg
    | ok c =>
        let edit := fun f => if touched f then applyEdit enabled c f else f
        have hedit : ∀ f, editRow lower enabled newName newUrl f = .ok (applyEdit enabled c f) :=
          fun f => by
            rw [editRow_eq, hcheck]
            rfl
        have hresult : handle lower isPrintable (zoneScope zoneId) db
            (.setUrl url whitelist enabled newName newUrl) =
              .ok { db with filterLists := db.filterLists.filterMap fun f => some (edit f) } := by
          simp only [handle, filteringSetUrl]
          rw [if_pos hany]
          refine GoText.bind_ok.mpr ⟨db.filterLists.map edit, ?_, ?_⟩
          · refine (GoText.mapM_eq_ok (g := edit) (p := fun _ => True) fun f g => ?_).mpr
              ⟨fun _ _ => trivial, rfl⟩
            change (if touched f = true then _ else _) = _ ↔ _
            by_cases hnamed : touched f = true
            · simp [hnamed, hedit, edit]
            · simp [hnamed, edit]
          · rw [List.filterMap_eq_map']
            rfl
        refine forall₃_congr fun server _ _ => ?_
        rw [served_ok hresult, sameState_map]
        · refine forall₂_congr fun f _ => ?_
          change line server (edit f) = _ ↔ (touched f = true → _)
          by_cases hnamed : touched f = true
          · simp [hnamed, hedit, edit]
          · simp [hnamed, edit]
        · intro f g hg
          obtain rfl := Option.some.inj hg
          change (if touched f = true then applyEdit enabled c f else f).kind = f.kind
          split <;> rfl
        · refine .inl fun f _ hline => ?_
          change line server (if touched f = true then applyEdit enabled c f else f) ≠ none
          split
          · exact line_applyEdit hcheck hline
          · exact hline
  · have hrefused : handle lower isPrintable (zoneScope zoneId) db
        (.setUrl url whitelist enabled newName newUrl) =
          .error ⟨404, notSubscribed isPrintable (kindOf whitelist) url⟩ := by
      simp only [handle, filteringSetUrl]
      rw [if_neg hany]
    refine iff_of_true (confined_of_refused hrefused) fun server _ _ f hf hnamed => ?_
    exact absurd (List.any_eq_true.mpr ⟨f, hf, hnamed⟩) hany

/-- A new rewrite stays inside of its zone. -/
theorem rewriteAdd_confined {domain answer : String} :
    Confined lower isPrintable zoneId db (.rewriteAdd domain answer) := by
  cases hresult : handle lower isPrintable (zoneScope zoneId) db (.rewriteAdd domain answer) with
  | error e => exact confined_of_refused hresult
  | ok after =>
      intro server _ houtside
      rw [served_ok hresult]
      simp only [handle, rewriteAdd] at hresult
      split at hresult
      · cases hresult
      · split at hresult
        · cases hresult
        · obtain rfl := Except.ok.inj hresult
          refine sameState_of_records.mpr fun r => ?_
          have hnew : recordApplies ⟨lower (strip domain), strip answer, .zone, [zoneId], true⟩
              server = false := by
            cases hzone : server.zoneId with
            | none => simp [recordApplies, hzone]
            | some zid =>
                have hne : zid ≠ zoneId := fun heq => houtside (heq ▸ hzone)
                simp [recordApplies, hzone, hne]
          simp only [mem_desiredRewrites, Db.config, recordFields, zoneScope, List.map_append,
            List.mem_append, List.map_cons, List.map_nil, List.mem_singleton]
          constructor
          · intro ⟨rec, hrec, happlies, heq⟩
            exact ⟨rec, .inl hrec, happlies, heq⟩
          · intro ⟨rec, hrec, happlies, heq⟩
            rcases hrec with hrec | rfl
            · exact ⟨rec, hrec, happlies, heq⟩
            · exact absurd (hnew.symm.trans happlies) Bool.false_ne_true

/-- Rewrites that are deleted stay inside when they are nobody else's. -/
theorem rewriteDelete_confined_iff {domain answer : String} :
    Confined lower isPrintable zoneId db (.rewriteDelete domain answer) ↔
      Spares lower zoneId db (.rewriteDelete domain answer) := by
  by_cases hmanaged : ∃ r ∈ db.records, ofRewrite lower domain answer r = true ∧ r.managed = true
  · have hrefused : handle lower isPrintable (zoneScope zoneId) db (.rewriteDelete domain answer) =
        .error ⟨409, "that rewrite is auto-managed from the servers list"⟩ := by
      simp only [handle, rewriteDelete]
      rw [if_pos]
      simpa using hmanaged
    exact iff_of_true (confined_of_refused hrefused) (.inl hmanaged)
  · have hdone : handle lower isPrintable (zoneScope zoneId) db (.rewriteDelete domain answer) =
        .ok { db with records := db.records.filter fun r => !ofRewrite lower domain answer r } := by
      simp only [handle, rewriteDelete]
      rw [if_neg]
      simpa using hmanaged
    simp only [Spares, hmanaged, false_or]
    refine forall₃_congr fun server _ _ => ?_
    rw [served_ok hdone, sameState_of_records]
    simp only [mem_desiredRewrites, Db.config, List.mem_map, List.mem_filter]
    constructor
    · intro h r hr hnamed
      by_contra happlies
      rw [Bool.not_eq_false] at happlies
      obtain ⟨_, ⟨r', ⟨-, hkept⟩, rfl⟩, -, heq⟩ :=
        (h ⟨r.domain, r.answer⟩).mp ⟨_, ⟨r, hr, rfl⟩, happlies, rfl⟩
      -- what is left names the same rewrite, and would have been deleted too
      obtain ⟨hdomain, hanswer⟩ := Rewrite.mk.inj heq
      simp only [ofRewrite, hdomain, hanswer, Bool.not_eq_true'] at hkept
      exact absurd (hkept.symm.trans hnamed) Bool.false_ne_true
    · intro h r
      constructor
      · intro ⟨_, ⟨rec, hrec, rfl⟩, happlies, heq⟩
        refine ⟨_, ⟨rec, ⟨hrec, ?_⟩, rfl⟩, happlies, heq⟩
        by_contra hnamed
        have hnamed' : ofRewrite lower domain answer rec = true := by simpa using hnamed
        exact absurd ((h rec hrec hnamed').symm.trans happlies) Bool.false_ne_true
      · intro hleft
        obtain ⟨_, ⟨rec, ⟨hrec, -⟩, rfl⟩, happlies, heq⟩ := hleft
        exact ⟨_, ⟨rec, hrec, rfl⟩, happlies, heq⟩

end Outside

/-- **Which writes stay inside their zone.**  A write through a zone leaves every server
outside of it with the state it should have exactly when the rows it removes apply to
none of them and the rows it edits stay the same for them. -/
theorem confined_iff (lower : String → String) (isPrintable : Char → Bool) (zoneId : Nat)
    (db : Db) (w : Write) : Confined lower isPrintable zoneId db w ↔ Spares lower zoneId db w := by
  cases w with
  | addUrl url name whitelist => exact iff_of_true addUrl_confined trivial
  | removeUrl url whitelist => exact removeUrl_confined_iff
  | setUrl url whitelist enabled newName newUrl => exact setUrl_confined_iff
  | rewriteAdd domain answer => exact iff_of_true rewriteAdd_confined trivial
  | rewriteDelete domain answer => exact rewriteDelete_confined_iff

def serverIn (zoneId : Nat) : Server where
  id := 1
  name := "dns-b"
  url := "https://10.0.2.2"
  username := none
  passwordEnc := none
  zoneId := some zoneId
  enabled := true
  agentId := none
  dnsPort := 53
  exposeWebUi := false
  installMethod := none
  tlsCert := none
  prune := true
  manageUpstreams := false
  manageFiltering := false

/-- One server and one rewrite, both of zone 2. -/
def secondZone : Db where
  servers := [serverIn 2]
  records := [⟨⟨"nas.lan", "10.0.2.9", .zone, [2], true⟩, false⟩]
  upstreams := []
  forwardZones := []
  filterLists := []
  blockedServices := []

/-- Zone 1 deletes a rewrite of zone 2. -/
theorem other_zone_loses_rewrite :
    ¬ Confined String.toLower (fun _ => true) 1 secondZone (.rewriteDelete "nas.lan" "10.0.2.9") := by
  intro h
  have hrewrites := (h (serverIn 2) (by decide) (by decide)).rewrites ⟨"nas.lan", "10.0.2.9"⟩
  exact absurd hrewrites (by decide +kernel)

end AdguardAdmin.Compat
