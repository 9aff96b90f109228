import AdguardAdmin.Imports
import AdguardAdmin.UpstreamSyntax
/-!
# Importing upstreams

An import takes the lines of a server apart and makes rows of them: one for each upstream of
a plain line, and one for each list of domains, with the upstreams of all lines that have it.
-/

namespace AdguardAdmin.UpstreamImports

open Fields InsertMissing UpstreamSyntax
open Imports (target sameTarget)
open Registry (HttpError)

/-! ## The import -/

/-- The rest of `_FORWARD_RE` after the domains: `/\]\s*(?P<addrs>.+)$`, on a stripped line. -/
def addrsAfterClose : List Char → Option (List Char)
  | '/' :: ']' :: text =>
      let addrs := text.dropWhile PyText.isSpace
      if addrs ≠ [] ∧ '\n' ∉ addrs then some addrs else none
  | _ => none

/-- `(?P<domains>.+?)` and the rest: as few characters as will do, but one at least. -/
def lazyDomains : List Char → Option (List Char × List Char)
  | [] => none
  | c :: rest =>
      if c = '\n' then none
      else match addrsAfterClose rest with
        | some addrs => some ([c], addrs)
        | none => (lazyDomains rest).map fun (front, addrs) => (c :: front, addrs)

/-- `_FORWARD_RE.match` -/
def matchForward : List Char → Option (List Char × List Char)
  | '[' :: '/' :: rest => lazyDomains rest
  | _ => none

/-- A dict of lists, in the order of insertion. -/
abbrev Forwards := List (List String × List String)

def appendMissing (addrs : List String) (addr : String) : List String :=
  if addr ∈ addrs then addrs else addrs ++ [addr]

def addForward (domains : List String) (forwards : Forwards) (addr : String) : Forwards :=
  if domains ∈ forwards.map Prod.fst then
    forwards.map fun entry =>
      if entry.1 = domains then (entry.1, appendMissing entry.2 addr) else entry
  else forwards ++ [(domains, [addr])]

structure Parsed where
  plain : List String
  forwards : Forwards
  deriving DecidableEq, Repr

def parseEntry (parsed : Parsed) (raw : Option String) : Parsed :=
  let line := PyText.strip (raw.getD "")
  if line = "" ∨ "#".toList <+: line.toList then parsed
  else match matchForward line.toList with
    | some (front, addrs) =>
        let domains := (fields (· == '/') front).map String.ofList
        { parsed with
          forwards := (PyText.split (String.ofList addrs)).foldl (addForward domains)
            parsed.forwards }
    | none => { parsed with plain := (PyText.split line).foldl appendMissing parsed.plain }

/-- `_parse_upstreams` -/
def parseUpstreams (entries : List (Option String)) : Parsed := entries.foldl parseEntry ⟨[], []⟩

/-- `_plain_list`; null becomes a text, as everything that `str` is applied to. -/
def plainList (entries : List (Option String)) : List String :=
  ((entries.flatMap fun raw => PyText.split (raw.getD "None")).filter
    fun addr => !decide ("[".toList <+: addr.toList)).foldl appendMissing []

/-- `dns_info`, as far as it is imported. -/
structure DnsInfo where
  upstreamDns : List (Option String)
  bootstrapDns : List (Option String)
  fallbackDns : List (Option String)
  localPtrUpstreams : List (Option String)

section Rows

variable (scope : ConfigScope) (server : Server)

def sameUpstream (kind : DnsServerKind) (row : Upstream) (addr : String) : Bool :=
  row.address = addr && row.kind = kind && sameTarget scope server row.toScoped

def upstreamOf (kind : DnsServerKind) (addr : String) : Upstream where
  toScoped := target scope server
  address := addr
  kind := kind
  enabled := true

def sameForward (row : ForwardZone) (entry : List String × List String) : Bool :=
  row.domains = " ".intercalate entry.1 && sameTarget scope server row.toScoped

def forwardOf (entry : List String × List String) : ForwardZone where
  toScoped := target scope server
  domains := " ".intercalate entry.1
  upstreams := " ".intercalate entry.2
  enabled := true

def importKind (kind : DnsServerKind) (addrs : List String) (rows : List Upstream) :
    List Upstream :=
  insertAll (sameUpstream scope server kind) (upstreamOf scope server kind) rows addrs

/-- The rows for what the server has. -/
def insertSettings (info : DnsInfo) (db : ConfigTables) : ConfigTables :=
  let parsed := parseUpstreams info.upstreamDns
  { db with
    upstreams :=
      importKind scope server .privateResolvers (plainList info.localPtrUpstreams)
        (importKind scope server .fallback (plainList info.fallbackDns)
          (importKind scope server .bootstrap (plainList info.bootstrapDns)
            (importKind scope server .upstream parsed.plain db.upstreams)))
    forwardZones := insertAll (sameForward scope server) (forwardOf scope server)
      db.forwardZones parsed.forwards }

/-- `import_settings`, with the answer of the server. -/
def importSettings (answer : Except AdGuardError DnsInfo) (db : ConfigTables) :
    Except HttpError ConfigTables :=
  if scope = .zone ∧ server.zoneId = none then
    .error ⟨400, "Server has no zone; import as global or server scope"⟩
  else
    match answer with
    | .error e => .error ⟨502, "Could not read settings from server: " ++ e.message⟩
    | .ok info => .ok (insertSettings scope server info db)

end Rows


/-! ## What the import finds -/

/-- A line that is gone through. -/
def Counts (raw : String) : Prop :=
  ¬ (PyText.strip raw = "" ∨ "#".toList <+: (PyText.strip raw).toList)

def PlainOf (raw addr : String) : Prop :=
  Counts raw ∧ matchForward (PyText.strip raw).toList = none ∧ addr ∈ PyText.split raw

def ForwardOf (raw : String) (domains : List String) (addr : String) : Prop :=
  Counts raw ∧ ∃ front addrs, matchForward (PyText.strip raw).toList = some (front, addrs) ∧
    domains = (fields (· == '/') front).map String.ofList ∧
    addr ∈ PyText.split (String.ofList addrs)

def Grouped (forwards : Forwards) (domains : List String) (addr : String) : Prop :=
  ∃ addrs, (domains, addrs) ∈ forwards ∧ addr ∈ addrs

structure ParsedFrom (lines : List String) (parsed : Parsed) : Prop where
  plain : ∀ addr, addr ∈ parsed.plain ↔ ∃ raw ∈ lines, PlainOf raw addr
  forwards : ∀ domains addr,
    Grouped parsed.forwards domains addr ↔ ∃ raw ∈ lines, ForwardOf raw domains addr
  keys : (parsed.forwards.map Prod.fst).Nodup
  filled : ∀ entry ∈ parsed.forwards, entry.2 ≠ []

/-- An address that was missing is put behind the others. -/
theorem mem_appendMissing {addrs : List String} {addr other : String} :
    other ∈ appendMissing addrs addr ↔ other ∈ addrs ∨ other = addr := by
  unfold appendMissing
  split
  · next h =>
      constructor
      · exact .inl
      · rintro (hmem | rfl)
        · exact hmem
        · exact h
  · simp

/-- Adding many addresses adds each that is not there. -/
theorem mem_foldl_appendMissing {addrs words : List String} {addr : String} :
    addr ∈ words.foldl appendMissing addrs ↔ addr ∈ addrs ∨ addr ∈ words := by
  induction words generalizing addrs with
  | nil => simp
  | cons word rest ih =>
      rw [List.foldl_cons, ih, mem_appendMissing, List.mem_cons, or_assoc]

/-- An upstream joins those of its domains. -/
theorem grouped_addForward {domains others : List String} {forwards : Forwards}
    {addr other : String} :
    Grouped (addForward domains forwards addr) others other ↔
      Grouped forwards others other ∨ (others = domains ∧ other = addr) := by
  unfold addForward Grouped
  split
  · next h =>
      constructor
      · rintro ⟨addrs, hentry, hother⟩
        obtain ⟨⟨key, old⟩, hold, heq⟩ := List.mem_map.mp hentry
        dsimp only at heq
        split at heq
        · next hkey =>
            obtain ⟨rfl, rfl⟩ : key = others ∧ appendMissing old addr = addrs := by
              simpa using heq
            rcases mem_appendMissing.mp hother with hin | rfl
            · exact .inl ⟨old, hold, hin⟩
            · exact .inr ⟨hkey, rfl⟩
        · obtain ⟨rfl, rfl⟩ : key = others ∧ old = addrs := by simpa using heq
          exact .inl ⟨old, hold, hother⟩
      · rintro (⟨addrs, hentry, hother⟩ | ⟨rfl, rfl⟩)
        · refine ⟨if others = domains then appendMissing addrs addr else addrs,
            List.mem_map.mpr ⟨(others, addrs), hentry, ?_⟩, ?_⟩
          · split <;> rfl
          · split
            · exact mem_appendMissing.mpr (.inl hother)
            · exact hother
        · obtain ⟨⟨key, old⟩, hold, rfl⟩ := List.mem_map.mp h
          refine ⟨appendMissing old other, List.mem_map.mpr ⟨(key, old), hold, ?_⟩,
            mem_appendMissing.mpr (.inr rfl)⟩
          simp
  · next h =>
      constructor
      · rintro ⟨addrs, hentry, hother⟩
        rcases List.mem_append.mp hentry with hold | hnew
        · exact .inl ⟨addrs, hold, hother⟩
        · obtain ⟨rfl, rfl⟩ : others = domains ∧ addrs = [addr] := by simpa using hnew
          exact .inr ⟨rfl, List.mem_singleton.mp hother⟩
      · rintro (⟨addrs, hentry, hother⟩ | ⟨rfl, rfl⟩)
        · exact ⟨addrs, List.mem_append_left _ hentry, hother⟩
        · exact ⟨[other], by simp, by simp⟩

/-- The domains of the forward zones stay distinct. -/
theorem keys_addForward {domains : List String} {forwards : Forwards} {addr : String}
    (h : (forwards.map Prod.fst).Nodup) :
    ((addForward domains forwards addr).map Prod.fst).Nodup := by
  unfold addForward
  split
  · have hkeys : (forwards.map fun entry =>
        if entry.1 = domains then (entry.1, appendMissing entry.2 addr) else entry).map Prod.fst =
          forwards.map Prod.fst := by
      rw [List.map_map]
      apply List.map_congr_left
      intro entry _
      dsimp only [Function.comp]
      split <;> rfl
    rwa [hkeys]
  · next hnew =>
      rw [List.map_append, List.map_singleton]
      exact List.nodup_append.mpr ⟨h, by simp, by
        intro key hkey other hother
        rw [List.mem_singleton] at hother
        subst hother
        rintro rfl
        exact hnew hkey⟩

/-- Many upstreams join those of their domains. -/
theorem grouped_foldl {domains others words : List String} {forwards : Forwards} {other : String} :
    Grouped (words.foldl (addForward domains) forwards) others other ↔
      Grouped forwards others other ∨ (others = domains ∧ other ∈ words) := by
  induction words generalizing forwards with
  | nil => simp
  | cons word rest ih =>
      rw [List.foldl_cons, ih, grouped_addForward, List.mem_cons, or_assoc, ← and_or_left]

/-- The domains stay distinct then, too. -/
theorem keys_foldl {domains words : List String} {forwards : Forwards}
    (h : (forwards.map Prod.fst).Nodup) :
    ((words.foldl (addForward domains) forwards).map Prod.fst).Nodup := by
  induction words generalizing forwards with
  | nil => exact h
  | cons word rest ih => exact ih (keys_addForward h)

/-- Adding forward zones leaves none of them empty. -/
theorem filled_foldl {domains words : List String} {forwards : Forwards}
    (h : ∀ entry ∈ forwards, entry.2 ≠ []) :
    ∀ entry ∈ words.foldl (addForward domains) forwards, entry.2 ≠ [] := by
  induction words generalizing forwards with
  | nil => exact h
  | cons word rest ih =>
      apply ih
      unfold addForward
      split
      · rw [List.forall_mem_map]
        intro entry hentry
        split
        · exact List.ne_nil_of_mem (mem_appendMissing.mpr (.inr rfl))
        · exact h entry hentry
      · intro entry hentry
        rcases List.mem_append.mp hentry with hold | hnew
        · exact h entry hold
        · rw [List.mem_singleton.mp hnew]
          simp

/-- One line more is parsed into what it says. -/
theorem ParsedFrom.entry {lines : List String} {parsed : Parsed} (h : ParsedFrom lines parsed)
    (raw : String) : ParsedFrom (lines ++ [raw]) (parseEntry parsed (some raw)) := by
  have hlines : ∀ P : String → Prop, (∃ line ∈ lines ++ [raw], P line) ↔
      (∃ line ∈ lines, P line) ∨ P raw := by
    intro P
    simp [or_and_right, exists_or]
  unfold parseEntry
  dsimp only [Option.getD_some]
  split
  · next hskip =>
      -- a blank line or a comment
      constructor
      · intro addr
        rw [hlines, h.plain]
        exact ⟨.inl, fun hor => hor.resolve_right fun hplain => hplain.1 hskip⟩
      · intro domains addr
        rw [hlines, h.forwards]
        exact ⟨.inl, fun hor => hor.resolve_right fun hforward => hforward.1 hskip⟩
      · exact h.keys
      · exact h.filled
  · next hcounts =>
      cases hmatch : matchForward (PyText.strip raw).toList with
      | some found =>
          obtain ⟨front, addrs⟩ := found
          dsimp only
          constructor
          · intro addr
            rw [hlines, h.plain]
            refine ⟨.inl, fun hor => hor.resolve_right fun hplain => ?_⟩
            rw [hplain.2.1] at hmatch
            cases hmatch
          · intro domains addr
            rw [hlines, grouped_foldl, h.forwards]
            refine or_congr_right ⟨fun ⟨hdomains, haddr⟩ => ?_, fun hforward => ?_⟩
            · exact ⟨hcounts, front, addrs, hmatch, hdomains, haddr⟩
            · obtain ⟨-, front', addrs', hmatch', hdomains, haddr⟩ := hforward
              rw [hmatch] at hmatch'
              obtain ⟨rfl, rfl⟩ : front = front' ∧ addrs = addrs' := by simpa using hmatch'
              exact ⟨hdomains, haddr⟩
          · exact keys_foldl h.keys
          · exact filled_foldl h.filled
      | none =>
          dsimp only
          constructor
          · intro addr
            rw [hlines, mem_foldl_appendMissing, h.plain, PyText.split_strip]
            exact or_congr_right ⟨fun haddr => ⟨hcounts, hmatch, haddr⟩, fun hplain => hplain.2.2⟩
          · intro domains addr
            rw [hlines, h.forwards]
            refine ⟨.inl, fun hor => hor.resolve_right fun hforward => ?_⟩
            obtain ⟨-, front, addrs, hmatch', -⟩ := hforward
            rw [hmatch] at hmatch'
            cases hmatch'
          · exact h.keys
          · exact h.filled

/-- What is parsed of lines is what they say. -/
theorem parsedFrom (lines : List String) :
    ParsedFrom lines (parseUpstreams (lines.map some)) := by
  induction lines using List.reverseRecOn with
  | nil =>
      exact ⟨by simp [parseUpstreams], by simp [parseUpstreams, Grouped], .nil,
        by simp [parseUpstreams]⟩
  | append_singleton lines raw ih =>
      rw [parseUpstreams, List.map_append, List.foldl_append, List.map_singleton,
        List.foldl_cons, List.foldl_nil]
      exact ih.entry raw

/-! ## The rows -/

/-- No row of the tables is for the server. -/
structure NoMatching (server : Server) (db : ConfigTables) : Prop where
  upstreams : ∀ row ∈ db.upstreams, row.kind = .upstream →
    scopeMatches row.toScoped server = false
  forwardZones : ∀ row ∈ db.forwardZones, scopeMatches row.toScoped server = false

/-- Entries that are not empty are kept once. -/
theorem mem_dedupe {entries : List String} {entry : String} :
    entry ∈ dedupe entries ↔ entry ∈ entries ∧ entry ≠ "" := by
  simp [dedupe]

/-- The addresses of a kind are those of the rows that apply. -/
theorem mem_addressesOfKind {db : ConfigTables} {server : Server} {kind : DnsServerKind}
    {addr : String} : addr ∈ addressesOfKind db server kind ↔
      addr ≠ "" ∧ ∃ row ∈ db.upstreams, row.enabled = true ∧ row.kind = kind ∧
        scopeMatches row.toScoped server = true ∧ PyText.strip row.address = addr := by
  unfold addressesOfKind
  rw [mem_dedupe, List.mem_map]
  constructor
  · rintro ⟨⟨row, hrow, rfl⟩, hne⟩
    simp only [List.mem_filter, Bool.and_eq_true, decide_eq_true_eq] at hrow
    obtain ⟨hrow, ⟨⟨henabled, hkind⟩, hscope⟩, -⟩ := hrow
    exact ⟨hne, row, hrow, henabled, hkind, hscope, rfl⟩
  · rintro ⟨hne, row, hrow, henabled, hkind, hscope, rfl⟩
    refine ⟨⟨row, List.mem_filter.mpr ⟨hrow, ?_⟩, rfl⟩, hne⟩
    simp [henabled, hkind, hscope, hne]

/-- An import of one kind leaves the rows of the others. -/
theorem mem_importKind_other {scope : ConfigScope} {server : Server} {kind : DnsServerKind}
    {addrs : List String} {rows : List Upstream} {row : Upstream} (h : row.kind ≠ kind) :
    row ∈ importKind scope server kind addrs rows ↔ row ∈ rows := by
  constructor
  · intro hrow
    rcases mem_insertAll hrow with hold | ⟨addr, -, rfl⟩
    · exact hold
    · exact absurd rfl h
  · exact fun hrow => (prefix_insertAll _ _).subset hrow

section Tables

variable {server : Server} {info : DnsInfo} {db : ConfigTables} {lines : List String}

/-- A row is the same upstream as its own. -/
theorem sameUpstream_upstreamOf (kind : DnsServerKind) (addr : String) :
    sameUpstream .server server kind (upstreamOf .server server kind addr) addr = true := by
  simp [sameUpstream, upstreamOf, Imports.sameTarget_target]

/-- A forward zone is the same as its own. -/
theorem sameForward_forwardOf (entry : List String × List String) :
    sameForward .server server (forwardOf .server server entry) entry = true := by
  simp [sameForward, forwardOf, Imports.sameTarget_target]

theorem scopeMatches_target : scopeMatches (target .server server) server = true :=
  Imports.scopeMatches_of_sameTarget (Imports.sameTarget_target (by simp))

/-- The plain addresses of a server after the import. -/
theorem mem_addresses_inserted (hnone : NoMatching server db)
    (hwords : ∀ addr ∈ (parseUpstreams info.upstreamDns).plain, IsWord addr) {addr : String} :
    addr ∈ addressesOfKind (insertSettings .server server info db) server .upstream ↔
      addr ∈ (parseUpstreams info.upstreamDns).plain := by
  have hrows : ∀ row : Upstream, row.kind = .upstream →
      (row ∈ (insertSettings .server server info db).upstreams ↔
        row ∈ importKind .server server .upstream (parseUpstreams info.upstreamDns).plain
          db.upstreams) := by
    intro row hkind
    dsimp only [insertSettings]
    rw [mem_importKind_other (by simp [hkind]), mem_importKind_other (by simp [hkind]),
      mem_importKind_other (by simp [hkind])]
  rw [mem_addressesOfKind]
  constructor
  · rintro ⟨-, row, hrow, -, hkind, hscope, rfl⟩
    rw [hrows row hkind] at hrow
    rcases mem_insertAll hrow with hold | ⟨other, hother, rfl⟩
    · rw [hnone.upstreams row hold hkind] at hscope
      cases hscope
    · rw [show (upstreamOf .server server .upstream other).address = other from rfl,
        (hwords other hother).strip]
      exact hother
  · intro haddr
    have hword := hwords addr haddr
    have hmake : ∀ item ∈ (parseUpstreams info.upstreamDns).plain, sameUpstream .server server .upstream
        (upstreamOf .server server .upstream item) item = true :=
      fun item _ => sameUpstream_upstreamOf .upstream item
    obtain ⟨row, hrow, hsame⟩ := @exists_same _ _ _ _ db.upstreams _ hmake addr haddr
    simp only [sameUpstream, Bool.and_eq_true, decide_eq_true_eq] at hsame
    obtain ⟨⟨haddress, hkind⟩, htarget⟩ := hsame
    have hscope := Imports.scopeMatches_of_sameTarget htarget
    have henabled : row.enabled = true := by
      rcases mem_insertAll hrow with hold | ⟨_, _, rfl⟩
      · rw [hnone.upstreams row hold hkind] at hscope
        cases hscope
      · rfl
    refine ⟨fun hempty => hword.ne (by rw [hempty]; rfl), row, (hrows row hkind).mpr hrow, henabled,
      hkind, hscope, ?_⟩
    rw [haddress, hword.strip]

/-- The rows of forward zones for the server are those of what was found. -/
theorem mem_forwards_inserted (hnone : NoMatching server db)
    (hkeys : ((parseUpstreams info.upstreamDns).forwards.map Prod.fst).Nodup)
    (hwords : ∀ entry ∈ (parseUpstreams info.upstreamDns).forwards,
      PyText.words (" ".intercalate entry.1) = entry.1) {row : ForwardZone} :
    (row ∈ (insertSettings .server server info db).forwardZones ∧
        scopeMatches row.toScoped server = true) ↔
      ∃ entry ∈ (parseUpstreams info.upstreamDns).forwards,
        row = forwardOf .server server entry := by
  dsimp only [insertSettings]
  constructor
  · rintro ⟨hrow, hscope⟩
    rcases mem_insertAll hrow with hold | hmade
    · rw [hnone.forwardZones row hold] at hscope
      cases hscope
    · exact hmade
  · rintro ⟨entry, hentry, rfl⟩
    refine ⟨?_, scopeMatches_target⟩
    have hmake : ∀ item ∈ (parseUpstreams info.upstreamDns).forwards, sameForward .server server
        (forwardOf .server server item) item = true := fun item _ => sameForward_forwardOf item
    obtain ⟨row, hrow, hsame⟩ := @exists_same _ _ _ _ db.forwardZones _ hmake entry hentry
    simp only [sameForward, Bool.and_eq_true, decide_eq_true_eq] at hsame
    rcases mem_insertAll hrow with hold | ⟨other, hother, rfl⟩
    · have hscope := Imports.scopeMatches_of_sameTarget hsame.2
      rw [hnone.forwardZones row hold] at hscope
      cases hscope
    · -- the text of the domains tells the entry
      have htext : " ".intercalate other.1 = " ".intercalate entry.1 := hsame.1
      have hdomains : other.1 = entry.1 := by
        rw [← hwords other hother, htext, hwords entry hentry]
      rwa [← List.inj_on_of_nodup_map hkeys hother hentry hdomains]

/-- What was inserted is found by a second import. -/
theorem insertSettings_again :
    importSettings .server server (.ok info) (insertSettings .server server info db) =
      .ok (insertSettings .server server info db) := by
  have hkinds : ∀ kind addrs rows later, importKind .server server kind addrs rows <+: later →
      importKind .server server kind addrs later = later := by
    intro kind addrs rows later hlater
    exact insertAll_again (fun addr _ => sameUpstream_upstreamOf kind addr) hlater
  have hgrow : ∀ kind addrs rows, rows <+: importKind .server server kind addrs rows :=
    fun _ _ _ => prefix_insertAll _ _
  have hupstreams : (insertSettings .server server info
      (insertSettings .server server info db)).upstreams =
        (insertSettings .server server info db).upstreams := by
    dsimp only [insertSettings]
    rw [hkinds .upstream _ _ _ ((hgrow _ _ _).trans ((hgrow _ _ _).trans (hgrow _ _ _))),
      hkinds .bootstrap _ _ _ ((hgrow _ _ _).trans (hgrow _ _ _)),
      hkinds .fallback _ _ _ (hgrow _ _ _), hkinds .privateResolvers _ _ _ List.prefix_rfl]
  have hforwards : (insertSettings .server server info
      (insertSettings .server server info db)).forwardZones =
        (insertSettings .server server info db).forwardZones :=
    insertAll_again (fun entry _ => sameForward_forwardOf entry) List.prefix_rfl
  have hsame : insertSettings .server server info (insertSettings .server server info db) =
      { insertSettings .server server info db with
        upstreams := (insertSettings .server server info
          (insertSettings .server server info db)).upstreams
        forwardZones := (insertSettings .server server info
          (insertSettings .server server info db)).forwardZones } := rfl
  rw [importSettings, if_neg (by simp), hsame, hupstreams, hforwards]

/-- The words of a joined text are those of its parts. -/
theorem mem_words_join {us : List String} {v : String} :
    v ∈ PyText.words (" ".intercalate us) ↔ ∃ u ∈ us, v ∈ PyText.words u := by
  rw [PyText.words_eq, String.toList_intercalate, show " ".toList = [' '] from rfl,
    fields_join (by decide), List.mem_map]
  constructor
  · rintro ⟨piece, hpiece, rfl⟩
    obtain ⟨text, htext, hmem⟩ := List.mem_flatMap.mp hpiece
    obtain ⟨u, hu, rfl⟩ := List.mem_map.mp htext
    exact ⟨u, hu, by rw [PyText.words_eq]; exact List.mem_map_of_mem hmem⟩
  · rintro ⟨u, hu, hv⟩
    rw [PyText.words_eq] at hv
    obtain ⟨piece, hpiece, rfl⟩ := List.mem_map.mp hv
    exact ⟨piece, List.mem_flatMap.mpr ⟨u.toList, List.mem_map_of_mem hu, hpiece⟩, rfl⟩

/-- Domains are found again in what is stored. -/
theorem words_domains {ds : List String} (h : AreDomains ds) (hne : ∀ d ∈ ds, d ≠ "") :
    PyText.words (" ".intercalate ds) = ds := by
  have hfields : fields PyText.isGap ([' '].intercalate (ds.map String.toList)) =
      ds.map String.toList := by
    apply fields_intercalate (by decide)
    · rw [List.forall_mem_map]
      exact fun d hd c hc => (isDomain_free (h d hd).1 c hc).1
    · rw [List.forall_mem_map]
      exact fun d hd => by simpa using hne d hd
  rw [PyText.words_eq, String.toList_intercalate, show " ".toList = [' '] from rfl, hfields]
  simp [List.map_map, Function.comp_def]

/-- A word without commas is one. -/
theorem words_word {u : String} (h : IsWord u) (hcomma : ',' ∉ u.toList) :
    PyText.words u = [u] := by
  have hfree : ∀ c ∈ u.toList, PyText.isGap c = false := by
    intro c hc
    have hne : c ≠ ',' := fun heq => hcomma (heq ▸ hc)
    simp [PyText.isGap, h.free c hc, hne]
  rw [PyText.words_eq, fields_of_free hfree h.ne, List.map_singleton, String.ofList_toList]

/-- A stretch of a word between commas. -/
theorem isWord_of_words {u v : String} (hopen : cutClose u.toList = none)
    (hv : v ∈ PyText.words u) : IsWord v ∧ ',' ∉ v.toList ∧ cutClose v.toList = none := by
  obtain ⟨hne, hfree, before, rest, htext, -⟩ := PyText.mem_words.mp hv
  have hgap : ∀ c ∈ v.toList, PyText.isSpace c = false ∧ c ≠ ',' := by
    intro c hc
    have hnot := hfree c hc
    unfold PyText.isGap at hnot
    rw [Bool.or_eq_false_iff, decide_eq_false_iff_not] at hnot
    exact ⟨hnot.2, hnot.1⟩
  refine ⟨⟨fun c hc => (hgap c hc).1, by simpa using hne⟩, fun hc => (hgap _ hc).2 rfl, ?_⟩
  rw [htext] at hopen
  exact cutClose_stretch hopen

end Tables

end AdguardAdmin.UpstreamImports
