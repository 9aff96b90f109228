import AdguardAdmin.DnsdistSpec
import AdguardAdmin.LuaText
/-!
# What dnsdist reads

The configuration that is rendered from an accepted spec, read again as Lua.

* `readString_luaString` — a string that is quoted is read again;
* `render_reads_back` — the statements dnsdist finds are those of the spec.
-/

namespace AdguardAdmin.Dnsdist

open GoText IpLiterals Json LuaText

/-! ## Strings -/

/-- Three digits have the value of the number. -/
theorem ofDigitChars_threeDigits (n : Nat) : Nat.ofDigitChars 10 (threeDigits n) 0 = n := by
  unfold threeDigits
  dsimp only
  rw [Nat.ofDigitChars_append, Nat.ofDigitChars_replicate_zero, Nat.mul_zero,
    Nat.ofDigitChars_ten_toDigits]

/-- A number below a thousand is spelled with three characters. -/
theorem threeDigits_length {n : Nat} (hn : n < 1000) : (threeDigits n).length = 3 := by
  have hlen : (Nat.toDigits 10 n).length ≤ 3 := by
    rw [Nat.length_toDigits_le_iff (by decide) (by decide)]
    exact hn
  unfold threeDigits
  rw [List.length_append, List.length_replicate]
  omega

/-- These characters are digits. -/
theorem isDigit_threeDigits {n : Nat} {c : Char} (hc : c ∈ threeDigits n) : c.isDigit = true := by
  rcases List.mem_append.mp hc with hzero | hdigit
  · obtain rfl := (List.mem_replicate.mp hzero).2
    rfl
  · exact Nat.isDigit_of_mem_toDigits (by decide) (by decide) hdigit

/-- A control character is read by its number. -/
theorem readEscape_threeDigits {c : Char} (hc : c.toNat < 128) (rest : List Char) :
    readEscape (threeDigits c.toNat ++ rest) = some (some c, rest) := by
  have hlen : (threeDigits c.toNat).length = 3 := threeDigits_length (by omega)
  have hall : ∀ d ∈ threeDigits c.toNat, d.isDigit = true := fun d hd => isDigit_threeDigits hd
  have htake : ((threeDigits c.toNat ++ rest).take 3).takeWhile Char.isDigit =
      threeDigits c.toNat := by
    rw [← hlen, List.take_left, List.takeWhile_eq_self_iff.mpr hall]
  have hdecimal : readDecimal (threeDigits c.toNat ++ rest) = some (c, rest) := by
    have hne : threeDigits c.toNat ≠ [] := by
      intro hnil
      rw [hnil] at hlen
      cases hlen
    unfold readDecimal
    dsimp only
    rw [htake, if_neg hne, ofDigitChars_threeDigits, ascii, if_pos hc, Char.ofNat_toNat,
      Option.map_some, List.drop_left]
  cases htext : threeDigits c.toNat with
  | nil => rw [htext] at hlen; cases hlen
  | cons d ds =>
      have hd : d.isDigit = true := hall d (htext ▸ List.mem_cons_self)
      have hsimple : simpleEscape d = none := by
        refine List.lookup_eq_none_iff.mpr fun p hp => ?_
        have hnone : ∀ p ∈ [('a', '\x07'), ('b', '\x08'), ('f', '\x0c'), ('n', '\n'), ('r', '\r'),
            ('t', '\t'), ('v', '\x0b'), ('\\', '\\'), ('"', '"'), ('\'', '\''), ('\n', '\n')],
            p.1.isDigit = false := by decide
        have hp' := hnone p hp
        simp only [bne_iff_ne, ne_eq]
        rintro rfl
        rw [hd] at hp'
        cases hp'
      rw [htext, List.cons_append] at hdecimal
      rw [List.cons_append, readEscape, hsimple]
      dsimp only
      rw [if_neg, if_neg, hdecimal]
      · rfl
      · rintro rfl
        cases hd
      · rintro rfl
        cases hd

/-- What a character is written as is read as that character. -/
theorem readString_luaChar (c : Char) (rest : List Char) :
    LuaText.readString '"' (luaChar c ++ rest) =
      (LuaText.readString '"' rest).map fun p => (c :: p.1, p.2) := by
  have hescape : ∀ text rest', readEscape text = some (some c, rest') →
      LuaText.readString '"' ('\\' :: text) =
        (LuaText.readString '"' rest').map fun p => (c :: p.1, p.2) := by
    intro text rest' hread
    rw [LuaText.readString, if_neg (by decide), if_neg (by decide), if_pos rfl]
    split
    · rename_i hnone
      rw [hread] at hnone
      cases hnone
    · rename_i e rest'' hsome
      rw [hread] at hsome
      obtain ⟨rfl, rfl⟩ := Prod.mk.inj (Option.some.inj hsome)
      rfl
  unfold luaChar
  split
  · rename_i hc
    subst hc
    exact hescape _ _ rfl
  · split
    · rename_i hc
      subst hc
      exact hescape _ _ rfl
    · split
      · rename_i hc
        subst hc
        exact hescape _ _ rfl
      · split
        · rename_i hc
          subst hc
          exact hescape _ _ rfl
        · rename_i hslash hquote hline hreturn
          split
          · rename_i hcontrol
            exact hescape _ _ (readEscape_threeDigits (by omega) rest)
          · have hbreak : isBreak c = false := by simp [isBreak, hline, hreturn]
            rw [List.singleton_append, LuaText.readString, if_neg hquote,
              if_neg (by simp [hbreak]), if_neg hslash]

/-- **A string that is quoted is read again**, whatever stands behind it. -/
theorem readString_luaString (s : List Char) (rest : List Char) :
    LuaText.readString '"' (s.flatMap luaChar ++ '"' :: rest) = some (s, rest) := by
  induction s with
  | nil =>
      rw [List.flatMap_nil, List.nil_append, LuaText.readString, if_pos rfl]
  | cons c s ih =>
      rw [List.flatMap_cons, List.append_assoc, readString_luaChar, ih]
      rfl

def luaQuoting : Quoting where
  quote s := (luaString s).toList
  read s := by
    refine ⟨s.toList.flatMap luaChar ++ ['"'], String.toList_ofList, fun rest => ?_⟩
    rw [List.append_assoc]
    exact readString_luaString s.toList rest

/-! ## Statements -/

/-- A call with one argument. -/
def call1 (name : String) (e : Exp) : Stat := .call name [(none, [e])]

def listenStats : List String → List Stat
  | [] => []
  | first :: rest => call1 "setLocal" (.str first) :: rest.map fun l => call1 "addLocal" (.str l)

def aclStat (acl : List String) : Stat :=
  call1 "setACL" (.table (acl.map fun a => (none, .str a)))

/-- The statement of a backend that is reached at an address. -/
def serverStat (s : Spec) (b : Backend) (address : String) : Stat :=
  call1 "newServer" (.table
    [(some "name", .str b.name), (some "address", .str address), (some "weight", .int b.weight),
      (some "order", .int b.order), (some "useClientSubnet", .bool s.ecs),
      (some "checkName", .str s.healthcheck.name),
      (some "checkInterval", .int s.healthcheck.intervalS),
      (some "maxCheckFailures", .int s.healthcheck.maxFailures),
      (some "rise", .int s.healthcheck.rise),
      (some "healthCheckMode", .str s.healthcheck.mode)])

def cacheStats (c : Cache) : List Stat :=
  if c.enabled then
    [.assign "pc" (.chain "newPacketCache" [(none,
        [.int c.maxEntries, .table [(some "maxTTL", .int 86400), (some "minTTL", .int 0)]])]),
      .call "getPool" [(none, [.str ""]), (some "setCache", [.chain "pc" []])]]
  else []

def fixedStats (keys : Keys) : List Stat :=
  [call1 "webserver" (.str "127.0.0.1:8083"),
    call1 "setWebserverConfig" (.table
      [(some "apiKey", .str keys.api), (some "acl", .str "127.0.0.1/32,::1/128")]),
    call1 "controlSocket" (.str "127.0.0.1:5199"), call1 "setKey" (.str keys.console)]

/-- What the configuration of a spec says, the addresses of its backends being known. -/
def statements (keys : Keys) (s : Spec) (addresses : List String) : List Stat :=
  listenStats s.listen ++ aclStat s.acl :: (List.zipWith (serverStat s) s.backends addresses ++
    call1 "setServerPolicy" (.chain s.policy []) :: (cacheStats s.cache ++ fixedStats keys))

/-! ## What is rendered -/

theorem write_append (l r : List Stat) :
    write luaQuoting (l ++ r) = write luaQuoting l ++ write luaQuoting r := List.flatMap_append

theorem write_cons (s : Stat) (r : List Stat) :
    write luaQuoting (s :: r) = writeStat luaQuoting s ++ write luaQuoting r := List.flatMap_cons

/-- A call with one string is written as the format has it. -/
theorem write_strCall (name : String) (text : String) :
    (name ++ "(" ++ luaString text ++ ")\n").toList =
      writeStat luaQuoting (call1 name (.str text)) := by
  simp [call1, writeStat, statTokens, callTokens, argTokens, moreArgTokens, tokens, spell,
    spellToken, luaQuoting]

/-- Texts are joined as they are. -/
theorem join_toList (texts : List String) :
    (String.join texts).toList = texts.flatMap String.toList := by
  induction texts with
  | nil => rfl
  | cons t texts ih => rw [String.join_cons, String.toList_append, ih, List.flatMap_cons]

/-- What is rendered of the listeners is what is written of their statements. -/
theorem write_listen (listen : List String) :
    (renderListen listen).toList = write luaQuoting (listenStats listen) := by
  cases listen with
  | nil => rfl
  | cons first rest =>
      have hfirst := write_strCall "setLocal" first
      have hrest : (String.join (rest.map fun l => "addLocal(" ++ luaString l ++ ")\n")).toList =
          write luaQuoting (rest.map fun l => call1 "addLocal" (.str l)) := by
        rw [join_toList, write, List.flatMap_map, List.flatMap_map]
        refine List.flatMap_congr fun l _ => ?_
        exact write_strCall "addLocal" l
      rw [renderListen, String.toList_append, hrest, listenStats, write_cons, ← hfirst]
      rfl

/-- Strings without names, up to the brace that ends them. -/
theorem spell_strs (a : String) (rest : List String) :
    spell luaQuoting (fieldTokens ((a :: rest).map fun a => (none, .str a))) =
      [',', ' '].intercalate ((luaString a).toList :: rest.map fun a => (luaString a).toList) ++
        ['}'] := by
  have hfirst : ∀ a (rest : List (Option String × Exp)),
      spell luaQuoting (tokens (.str a) ++ moreFieldTokens rest) =
        (luaString a).toList ++ spell luaQuoting (moreFieldTokens rest) := by
    intro a rest
    simp [tokens, spell, spellToken, luaQuoting]
  induction rest generalizing a with
  | nil =>
      have hend : spell luaQuoting (moreFieldTokens []) = ['}'] := rfl
      rw [List.map_singleton, fieldTokens, hfirst, hend, List.map_nil, List.intercalate_singleton]
  | cons b rest ih =>
      have hcomma : spell luaQuoting (moreFieldTokens ((b :: rest).map fun a => (none, .str a))) =
          [',', ' '] ++ spell luaQuoting (fieldTokens ((b :: rest).map fun a => (none, .str a))) := by
        simp [moreFieldTokens, fieldTokens, spell, spellToken]
      rw [List.map_cons, fieldTokens, hfirst, hcomma, ih, List.map_cons,
        List.intercalate_cons_cons, List.append_assoc, List.append_assoc]

/-- The access list is written as its statement. -/
theorem write_acl (acl : List String) :
    ("setACL(\x7b" ++ ", ".intercalate (acl.map luaString) ++ "\x7d)\n").toList =
      writeStat luaQuoting (aclStat acl) := by
  have hfields : spell luaQuoting (fieldTokens (acl.map fun a => (none, .str a))) =
      (", ".intercalate (acl.map luaString)).toList ++ ['}'] := by
    rw [String.toList_intercalate, List.map_map]
    cases acl with
    | nil => rfl
    | cons a rest => exact spell_strs a rest
  have hstat : writeStat luaQuoting (aclStat acl) =
      "setACL(\x7b".toList ++ spell luaQuoting (fieldTokens (acl.map fun a => (none, .str a))) ++
        [')', '\n'] := by
    simp [aclStat, call1, writeStat, statTokens, callTokens, argTokens, moreArgTokens, tokens,
      spell, spellToken]
  rw [hstat, hfields, String.toList_append, String.toList_append]
  simp

/-- A number of the language. -/
def Small (n : Int) : Prop := 0 ≤ n ∧ n < 2 ^ 63

instance (n : Int) : Decidable (Small n) := inferInstanceAs (Decidable (_ ∧ _))

/-- A number that is not negative is written with its digits. -/
theorem repr_small {n : Int} (hn : Small n) : n.repr.toList = Nat.toDigits 10 n.toNat := by
  obtain ⟨k, rfl⟩ := Int.eq_ofNat_of_zero_le hn.1
  exact String.toList_ofList

/-- What a spec says in numbers and names can be written. -/
structure Readable (s : Spec) : Prop where
  policy : s.policy ∈ policies
  maxEntries : Small s.cache.maxEntries
  intervalS : Small s.healthcheck.intervalS
  maxFailures : Small s.healthcheck.maxFailures
  rise : Small s.healthcheck.rise
  backends : ∀ b ∈ s.backends, Small b.weight ∧ Small b.order ∧ IsPort b.port

/-- What is rendered of a backend is what is written of its statement, with the address it was
resolved to. -/
theorem write_backend {resolve : Resolver} {s : Spec} (hs : Readable s) {b : Backend}
    (hb : b ∈ s.backends) {text : String} (h : renderBackend resolve s b = some text) :
    ∃ ip, resolveBackend resolve b.address = some ip ∧
      text.toList = writeStat luaQuoting (serverStat s b (joinHostPort ip (toString b.port))) := by
  obtain ⟨ip, hip, htext⟩ := Option.bind_eq_some_iff.mp h
  refine ⟨ip, hip, ?_⟩
  obtain rfl := Option.some.inj htext
  obtain ⟨hweight, horder, -⟩ := hs.backends b hb
  have hbool : ∀ x : Bool, (boolText x).toList = (if x then "true" else "false").toList :=
    fun x => rfl
  simp [serverStat, call1, writeStat, statTokens, callTokens, argTokens, moreArgTokens, tokens,
    fieldTokens, moreFieldTokens, spell, spellToken, luaQuoting, repr_small hweight,
    repr_small horder, repr_small hs.intervalS, repr_small hs.maxFailures,
    repr_small hs.rise, hbool]

/-- What is rendered of the cache is what is written of its statements. -/
theorem write_cache {c : Cache} (hc : Small c.maxEntries) :
    (renderCache c).toList = write luaQuoting (cacheStats c) := by
  have hnumber : Nat.toDigits 10 86400 = "86400".toList := by decide
  have hempty : (luaString "").toList = ['"', '"'] := rfl
  unfold renderCache cacheStats
  split
  · simp [write, writeStat, statTokens, callTokens, argTokens, moreArgTokens, tokens, fieldTokens,
      moreFieldTokens, spell, spellToken, luaQuoting, repr_small hc, hnumber, hempty]
  · rfl

/-- The part that is the same in each configuration is written as its statements. -/
theorem write_fixed (keys : Keys) :
    ("webserver(" ++ luaString apiAddr ++ ")\n" ++
      "setWebserverConfig(\x7bapiKey=" ++ luaString keys.api ++ ", acl=" ++
        luaString "127.0.0.1/32,::1/128" ++ "\x7d)\n" ++
      "controlSocket(" ++ luaString consoleAddr ++ ")\n" ++
      "setKey(" ++ luaString keys.console ++ ")\n").toList =
        write luaQuoting (fixedStats keys) := by
  simp [fixedStats, call1, write, writeStat, statTokens, callTokens, argTokens, moreArgTokens,
    tokens, fieldTokens, moreFieldTokens, spell, spellToken, luaQuoting, apiAddr, consoleAddr]

/-- The address of a backend, as it is rendered. -/
def addressOf (resolve : Resolver) (b : Backend) : Option String :=
  (resolveBackend resolve b.address).map fun ip => joinHostPort ip (toString b.port)

/-- The backends are written as their statements, in order. -/
theorem write_backends {resolve : Resolver} {s : Spec} (hs : Readable s) {bs : List Backend}
    (hbs : ∀ b ∈ bs, b ∈ s.backends) {servers : List String}
    (h : bs.mapM (renderBackend resolve s) = some servers) :
    ∃ addresses, bs.mapM (addressOf resolve) = some addresses ∧
      (String.join servers).toList =
        write luaQuoting (List.zipWith (serverStat s) bs addresses) := by
  induction bs generalizing servers with
  | nil =>
      obtain rfl := Option.some.inj h
      exact ⟨[], rfl, rfl⟩
  | cons b bs ih =>
      rw [List.mapM_cons] at h
      obtain ⟨text, htext, h⟩ := Option.bind_eq_some_iff.mp h
      obtain ⟨texts, htexts, h⟩ := Option.bind_eq_some_iff.mp h
      obtain rfl := Option.some.inj h
      rw [List.forall_mem_cons] at hbs
      obtain ⟨addresses, haddresses, hjoin⟩ := ih hbs.2 htexts
      obtain ⟨ip, hip, hwrite⟩ := write_backend hs hbs.1 htext
      refine ⟨joinHostPort ip (toString b.port) :: addresses, ?_, ?_⟩
      · rw [List.mapM_cons, haddresses, addressOf, hip]
        rfl
      · rw [List.zipWith_cons_cons, write_cons, ← hwrite, ← hjoin, String.join_cons,
          String.toList_append]

/-- The whole text is what is written of the statements, behind a comment with the hash. -/
theorem render_eq {keys : Keys} {resolve : Resolver} {s : Spec} (hs : Readable s) {hash text : String}
    (h : render keys resolve s hash = some text) :
    ∃ addresses, s.backends.mapM (addressOf resolve) = some addresses ∧
      text = String.ofList ("--".toList ++ (" generated by adguard-admin-agent; hash ".toList ++
        hash.toList ++ '\n' :: write luaQuoting (statements keys s addresses))) := by
  obtain ⟨servers, hservers, h⟩ := Option.bind_eq_some_iff.mp h
  obtain ⟨addresses, haddresses, hjoin⟩ := write_backends hs (fun _ hb => hb) hservers
  refine ⟨addresses, haddresses, ?_⟩
  obtain rfl := Option.some.inj h
  have hpolicy : ("setServerPolicy(" ++ s.policy ++ ")\n").toList =
      writeStat luaQuoting (call1 "setServerPolicy" (.chain s.policy [])) := by
    simp [call1, writeStat, statTokens, callTokens, argTokens, moreArgTokens, tokens, spell,
      spellToken]
  apply String.ext
  rw [String.toList_ofList, statements, write_append, write_cons, write_append, write_cons,
    write_append, ← write_listen, ← write_acl, ← hjoin, ← hpolicy, ← write_cache hs.maxEntries,
    ← write_fixed]
  simp only [String.toList_append, List.append_assoc]
  rfl

/-! ## Accepted specs -/

/-- Integers that Go holds and that are not negative are small enough for Lua. -/
theorem small_of_isInt64 {n : Int} (hn : IsInt64 n) (hpos : 0 ≤ n) : Small n := by
  unfold IsInt64 at hn
  unfold Small
  omega

/-- A number that was read fits into 64 bits. -/
theorem readInt_ok {v : Json Int} {n : Int} (h : readInt v = .ok n) : IsInt64 n := by
  unfold readInt at h
  split at h
  · obtain rfl := Except.ok.inj h
    decide
  · split at h
    · obtain rfl := Except.ok.inj h
      assumption
    · cases h
  · cases h

/-- What a list is mapped to comes from one of its items. -/
theorem mem_of_mapM {α β : Type} {f : α → Except Error β} {l : List α} {r : List β}
    (h : l.mapM f = .ok r) {b : β} (hb : b ∈ r) : ∃ a ∈ l, f a = .ok b := by
  induction l generalizing r with
  | nil =>
      obtain rfl := Except.ok.inj h
      exact absurd hb List.not_mem_nil
  | cons a l ih =>
      rw [List.mapM_cons] at h
      obtain ⟨x, hx, h⟩ := bind_ok.mp h
      obtain ⟨xs, hxs, h⟩ := bind_ok.mp h
      obtain rfl := pure_ok.mp h
      rcases List.mem_cons.mp hb with rfl | hb
      · exact ⟨a, List.mem_cons_self, hx⟩
      · obtain ⟨y, hy, hread⟩ := ih hxs hb
        exact ⟨y, List.mem_cons_of_mem _ hy, hread⟩

/-- The items of a list that was read were read. -/
theorem mem_of_readList {α : Type} {item : Json Int → Except Error α} {v : Json Int} {r : List α}
    (h : readList item v = .ok r) {x : α} (hx : x ∈ r) : ∃ w, item w = .ok x := by
  obtain ⟨items, hitems, h⟩ := bind_ok.mp h
  obtain rfl := pure_ok.mp h
  unfold readList? at hitems
  split at hitems
  · obtain rfl := Except.ok.inj hitems
    exact absurd hx List.not_mem_nil
  · obtain ⟨xs, hxs, hitems⟩ := bind_ok.mp hitems
    obtain rfl := pure_ok.mp hitems
    obtain ⟨w, -, hw⟩ := mem_of_mapM hxs hx
    exact ⟨w, hw⟩
  · cases hitems

/-- A struct that is there was decoded from its fields. -/
theorem of_readStruct? {α : Type} {fields : List (String × Json Int) → Except Error α}
    {v : Json Int} {x : α} (h : readStruct? fields v = .ok (some x)) : ∃ ms, fields ms = .ok x := by
  unfold readStruct? at h
  split at h
  · cases h
  · obtain ⟨y, hy, h⟩ := bind_ok.mp h
    obtain rfl := Option.some.inj (pure_ok.mp h)
    exact ⟨_, hy⟩
  · cases h

/-- The numbers that were read are integers of the program. -/
structure Numbers (i : Input) : Prop where
  cache : ∀ c ∈ i.cache, IsInt64 c.maxEntries
  healthcheck : ∀ h ∈ i.healthcheck,
    IsInt64 h.intervalS ∧ IsInt64 h.maxFailures ∧ IsInt64 h.rise
  backends : ∀ b ∈ i.backends, IsInt64 b.weight ∧ IsInt64 b.order

/-- The numbers of an input that was read fit into 64 bits. -/
theorem numbers_of_readInput {raw : Json Int} {i : Input} (h : readInput raw = .ok i) :
    Numbers i := by
  obtain ⟨fields, -, h⟩ := bind_ok.mp h
  obtain ⟨_, -, h⟩ := bind_ok.mp h
  obtain ⟨_, -, h⟩ := bind_ok.mp h
  obtain ⟨_, -, h⟩ := bind_ok.mp h
  obtain ⟨_, -, h⟩ := bind_ok.mp h
  obtain ⟨_, -, h⟩ := bind_ok.mp h
  obtain ⟨_, -, h⟩ := bind_ok.mp h
  obtain ⟨cache, hcache, h⟩ := bind_ok.mp h
  obtain ⟨healthcheck, hhealthcheck, h⟩ := bind_ok.mp h
  obtain ⟨_, -, h⟩ := bind_ok.mp h
  obtain ⟨backends, hbackends, h⟩ := bind_ok.mp h
  obtain rfl := pure_ok.mp h
  refine ⟨fun c hc => ?_, fun x hx => ?_, fun b hb => ?_⟩
  · obtain rfl : cache = some c := hc
    obtain ⟨ms, hms⟩ := of_readStruct? hcache
    obtain ⟨_, -, hms⟩ := bind_ok.mp hms
    obtain ⟨_, hentries, hms⟩ := bind_ok.mp hms
    obtain rfl := pure_ok.mp hms
    exact readInt_ok hentries
  · obtain rfl : healthcheck = some x := hx
    obtain ⟨ms, hms⟩ := of_readStruct? hhealthcheck
    obtain ⟨_, -, hms⟩ := bind_ok.mp hms
    obtain ⟨_, hinterval, hms⟩ := bind_ok.mp hms
    obtain ⟨_, hfailures, hms⟩ := bind_ok.mp hms
    obtain ⟨_, hrise, hms⟩ := bind_ok.mp hms
    obtain ⟨_, -, hms⟩ := bind_ok.mp hms
    obtain rfl := pure_ok.mp hms
    exact ⟨readInt_ok hinterval, readInt_ok hfailures, readInt_ok hrise⟩
  · obtain ⟨v, hv⟩ := mem_of_readList hbackends hb
    obtain ⟨_, -, hv⟩ := bind_ok.mp hv
    obtain ⟨_, -, hv⟩ := bind_ok.mp hv
    obtain ⟨_, -, hv⟩ := bind_ok.mp hv
    obtain ⟨_, -, hv⟩ := bind_ok.mp hv
    obtain ⟨_, hweight, hv⟩ := bind_ok.mp hv
    obtain ⟨_, horder, hv⟩ := bind_ok.mp hv
    obtain rfl := pure_ok.mp hv
    exact ⟨readInt_ok hweight, readInt_ok horder⟩

/-- A number that is too small is replaced by a default. -/
theorem small_or {n d : Int} (hn : IsInt64 n) (hd : Small d) : Small (if 0 < n then n else d) := by
  split
  · exact small_of_isInt64 hn (by omega)
  · exact hd

/-- Accepted backends have small weights and orders and proper ports. -/
theorem readable_backends {seen : List String} {bs checked : List Backend}
    (hbs : ∀ b ∈ bs, IsInt64 b.weight ∧ IsInt64 b.order)
    (h : decodeBackends seen bs = .ok checked) :
    ∀ b ∈ checked, Small b.weight ∧ Small b.order ∧ IsPort b.port := by
  induction bs generalizing seen checked with
  | nil =>
      obtain rfl := Except.ok.inj h
      simp
  | cons b bs ih =>
      rw [List.forall_mem_cons] at hbs
      obtain ⟨_, -, h⟩ := bind_ok.mp h
      obtain ⟨_, -, h⟩ := bind_ok.mp h
      obtain ⟨_, -, h⟩ := bind_ok.mp h
      obtain ⟨_, hport, h⟩ := bind_ok.mp h
      obtain ⟨rest, hrest, h⟩ := bind_ok.mp h
      obtain rfl := pure_ok.mp h
      rw [List.forall_mem_cons]
      refine ⟨⟨?_, ?_, not_not.mp (failIf_ok.mp hport)⟩, ih hbs.2 hrest⟩
      · have hweight := small_or hbs.1.1 (by decide : Small 1)
        simpa only [← not_lt, ite_not] using hweight
      · have horder := small_or hbs.1.2 (by decide : Small 1)
        simpa only [← not_lt, ite_not] using horder

/-- An accepted spec can be read back. -/
theorem readable_of_decode {raw : Json Int} {s : Spec} (h : decode raw = .ok s) : Readable s := by
  obtain ⟨i, hi, h⟩ := bind_ok.mp h
  have hnumbers := numbers_of_readInput (wrap_ok.mp hi)
  obtain ⟨_, -, h⟩ := bind_ok.mp h
  obtain ⟨_, -, h⟩ := bind_ok.mp h
  obtain ⟨_, -, h⟩ := bind_ok.mp h
  obtain ⟨policy, hpolicy, h⟩ := bind_ok.mp h
  obtain ⟨healthcheck, hhealthcheck, h⟩ := bind_ok.mp h
  obtain ⟨_, -, h⟩ := bind_ok.mp h
  obtain ⟨backends, hbackends, h⟩ := bind_ok.mp h
  obtain ⟨_, -, h⟩ := bind_ok.mp h
  obtain rfl := pure_ok.mp h
  have hchecks : Small healthcheck.intervalS ∧ Small healthcheck.maxFailures ∧
      Small healthcheck.rise := by
    unfold decodeHealthcheck at hhealthcheck
    split at hhealthcheck
    · obtain rfl := Except.ok.inj hhealthcheck
      exact ⟨by decide, by decide, by decide⟩
    · rename_i c hc
      obtain ⟨_, -, hhealthcheck⟩ := bind_ok.mp hhealthcheck
      obtain ⟨_, -, hhealthcheck⟩ := bind_ok.mp hhealthcheck
      obtain rfl := pure_ok.mp hhealthcheck
      obtain ⟨hinterval, hfailures, hrise⟩ := hnumbers.healthcheck c hc
      exact ⟨small_or hinterval (by decide), small_or hfailures (by decide),
        small_or hrise (by decide)⟩
  refine ⟨?_, ?_, hchecks.1, hchecks.2.1, hchecks.2.2,
    readable_backends hnumbers.backends hbackends⟩
  · obtain ⟨_, hno, hpolicy⟩ := bind_ok.mp hpolicy
    have hchosen := failIf_ok.mp hno
    obtain rfl := pure_ok.mp hpolicy
    dsimp only
    split
    · decide
    · rename_i hne
      by_contra hout
      exact hchosen ⟨hne, hout⟩
  · dsimp only
    cases hcache : i.cache with
    | none => exact by decide
    | some c => exact small_or (hnumbers.cache c hcache) (by decide)

/-! ## Reading it back -/

theorem okStat_call1 {name : String} (hname : IsName name) {e : Exp} (he : Ok e) :
    OkStat (call1 name e) := ⟨hname, ⟨by simp, ⟨he, trivial⟩, trivial⟩, by simp⟩

/-- Strings are the fields of a table. -/
theorem ok_strs (acl : List String) : OkFields (acl.map fun a => (none, .str a)) := by
  induction acl with
  | nil => trivial
  | cons a acl ih => exact ⟨by simp, trivial, ih⟩

/-- The statements of the listeners are well formed. -/
theorem okStat_listen (listen : List String) : ∀ st ∈ listenStats listen, OkStat st := by
  intro st hst
  cases listen with
  | nil => exact absurd hst List.not_mem_nil
  | cons first rest =>
      rcases List.mem_cons.mp hst with rfl | hst
      · exact okStat_call1 (by decide) trivial
      · obtain ⟨l, -, rfl⟩ := List.mem_map.mp hst
        exact okStat_call1 (by decide) trivial

/-- Named fields whose names are names. -/
theorem okFields_named {fs : List (Option String × Exp)}
    (hnames : ∀ f ∈ fs, ∀ w ∈ f.1, IsName w) (hvalues : ∀ f ∈ fs, Ok f.2) : OkFields fs := by
  induction fs with
  | nil => trivial
  | cons f fs ih =>
      rw [List.forall_mem_cons] at hnames hvalues
      exact ⟨hnames.1, hvalues.1, ih hnames.2 hvalues.2⟩

/-- The statement of a backend is well formed. -/
theorem okStat_server {s : Spec} (hs : Readable s) {b : Backend} (hb : b ∈ s.backends)
    (address : String) : OkStat (serverStat s b address) := by
  obtain ⟨hweight, horder, -⟩ := hs.backends b hb
  have hnames : ∀ w ∈ ["name", "address", "weight", "order", "useClientSubnet", "checkName",
      "checkInterval", "maxCheckFailures", "rise", "healthCheckMode"], IsName w := by decide
  refine okStat_call1 (by decide) (okFields_named (fun f hf w hw => hnames w ?_) ?_)
  · have hmem := List.mem_map_of_mem (f := Prod.fst) hf
    rw [hw] at hmem
    simpa using hmem
  · simp only [List.forall_mem_cons]
    exact ⟨trivial, trivial, hweight, horder, trivial, trivial, hs.intervalS, hs.maxFailures,
      hs.rise, trivial, by simp⟩

/-- The statements of the cache are well formed. -/
theorem okStat_cache {c : Cache} (hc : Small c.maxEntries) : ∀ st ∈ cacheStats c, OkStat st := by
  have hmax : OkFields [(some "maxTTL", .int 86400), (some "minTTL", .int 0)] := by
    refine okFields_named ?_ ?_
    · simp only [List.forall_mem_cons, Option.mem_some_iff, forall_eq']
      exact ⟨by decide, by decide, by simp⟩
    · simp only [List.forall_mem_cons]
      exact ⟨(by decide : Small 86400), (by decide : Small 0), by simp⟩
  unfold cacheStats
  split
  · simp only [List.forall_mem_cons]
    refine ⟨⟨by decide, by decide, ⟨by simp, ⟨hc, hmax, trivial⟩, trivial⟩⟩, ?_, by simp⟩
    refine ⟨by decide, ⟨by simp, ⟨trivial, trivial⟩, ?_, ⟨⟨by decide, trivial⟩, trivial⟩, trivial⟩,
      by simp⟩
    simp only [Option.mem_some_iff, forall_eq']
    decide
  · simp

/-- The statements of the fixed part are well formed. -/
theorem okStat_fixed (keys : Keys) : ∀ st ∈ fixedStats keys, OkStat st := by
  have hconfig : OkFields [(some "apiKey", .str keys.api),
      (some "acl", .str "127.0.0.1/32,::1/128")] := by
    refine okFields_named ?_ ?_
    · simp only [List.forall_mem_cons, Option.mem_some_iff, forall_eq']
      exact ⟨by decide, by decide, by simp⟩
    · simp only [List.forall_mem_cons]
      exact ⟨trivial, trivial, by simp⟩
  simp only [fixedStats, List.forall_mem_cons]
  exact ⟨okStat_call1 (by decide) trivial, okStat_call1 (by decide) hconfig,
    okStat_call1 (by decide) trivial, okStat_call1 (by decide) trivial, by simp⟩

theorem isName_policy {p : String} (hp : p ∈ policies) : IsName p := by
  have hall : ∀ p ∈ policies, IsName p := by decide
  exact hall p hp

/-- What two lists are zipped to comes from an item of each. -/
theorem mem_zipWith {α β γ : Type} {f : α → β → γ} {as : List α} {bs : List β} {c : γ}
    (h : c ∈ List.zipWith f as bs) : ∃ a ∈ as, ∃ b ∈ bs, f a b = c := by
  induction as generalizing bs with
  | nil => exact absurd h List.not_mem_nil
  | cons a as ih =>
      cases bs with
      | nil => exact absurd h List.not_mem_nil
      | cons b bs =>
          rcases List.mem_cons.mp h with rfl | h
          · exact ⟨a, List.mem_cons_self, b, List.mem_cons_self, rfl⟩
          · obtain ⟨x, hx, y, hy, hxy⟩ := ih h
            exact ⟨x, List.mem_cons_of_mem _ hx, y, List.mem_cons_of_mem _ hy, hxy⟩

/-- All statements of a spec are. -/
theorem okStat_statements {s : Spec} (hs : Readable s) (keys : Keys) (addresses : List String) :
    ∀ st ∈ statements keys s addresses, OkStat st := by
  unfold statements
  rw [List.forall_mem_append, List.forall_mem_cons, List.forall_mem_append, List.forall_mem_cons,
    List.forall_mem_append]
  refine ⟨okStat_listen s.listen, okStat_call1 (by decide) (ok_strs s.acl), ?_,
    okStat_call1 (by decide) ⟨isName_policy hs.policy, trivial⟩, okStat_cache hs.maxEntries,
    okStat_fixed keys⟩
  intro st hst
  obtain ⟨b, hb, address, -, rfl⟩ := mem_zipWith hst
  exact okStat_server hs hb address

/-- The address is an endpoint of the backend: its literal, or what its name resolves to. -/
def Reached (resolve : Resolver) (b : Backend) (address : String) : Prop :=
  ∃ ip, (parseIP b.address = some ip ∨
      parseIP b.address = none ∧ ∃ ips, resolve b.address = some ips ∧ ip ∈ ips) ∧
    splitHostPort address = some (ipString ip, toString b.port)

/-- The address of a backend is that of a resolved host, with its port. -/
theorem reached_of_addressOf {resolve : Resolver} {b : Backend} (hport : IsPort b.port)
    {address : String} (h : addressOf resolve b = some address) : Reached resolve b address := by
  obtain ⟨text, htext, rfl⟩ := Option.map_eq_some_iff.mp h
  obtain ⟨n, hn⟩ := Int.eq_ofNat_of_zero_le (show 0 ≤ b.port by have := hport.1; omega)
  have hsplit : ∀ ip, splitHostPort (joinHostPort (ipString ip) (toString b.port)) =
      some (ipString ip, toString b.port) := by
    intro ip
    rw [hn]
    exact splitHostPort_endpoint ip n
  unfold resolveBackend at htext
  split at htext
  · rename_i ip hip
    obtain rfl := Option.some.inj htext
    exact ⟨ip, .inl hip, hsplit ip⟩
  · rename_i hnone
    split at htext
    · cases htext
    · rename_i ips hips
      obtain ⟨ip, hip, rfl⟩ := Option.map_eq_some_iff.mp htext
      refine ⟨ip, .inr ⟨hnone, ips, hips, ?_⟩, hsplit ip⟩
      rcases Option.or_eq_some_iff.mp hip with hfound | ⟨-, hhead⟩
      · exact List.mem_of_find?_eq_some hfound
      · exact List.mem_of_mem_head? hhead

/-- The backends of a configuration are dialled where their names lead. -/
theorem reached_of_mapM {resolve : Resolver} {bs : List Backend} (hports : ∀ b ∈ bs, IsPort b.port)
    {addresses : List String} (h : bs.mapM (addressOf resolve) = some addresses) :
    List.Forall₂ (Reached resolve) bs addresses := by
  induction bs generalizing addresses with
  | nil =>
      obtain rfl := Option.some.inj h
      exact .nil
  | cons b bs ih =>
      rw [List.mapM_cons] at h
      obtain ⟨address, haddress, h⟩ := Option.bind_eq_some_iff.mp h
      obtain ⟨rest, hrest, h⟩ := Option.bind_eq_some_iff.mp h
      obtain rfl := Option.some.inj h
      rw [List.forall_mem_cons] at hports
      exact .cons (reached_of_addressOf hports.1 haddress) (ih hports.2 hrest)

/-- A string is read as one token. -/
theorem lex_luaString (s : String) : lex (luaString s).toList = some [.str s] := by
  have hlex := lex_str luaQuoting s []
  rw [List.append_nil] at hlex
  have hend : lex [] = some [] := by rw [lex]
  rw [hend] at hlex
  exact hlex

/-- **The configuration reads back.**  A quoted string is read as the string, and the
statements of what is rendered from an accepted spec are those of the spec. -/
theorem render_reads_back :
    (∀ s : String, lex (luaString s).toList = some [.str s]) ∧
      ∀ (raw : Json Int) (s : Spec), decode raw = .ok s → ∀ (keys : Keys) (resolve : Resolver)
        (hash : String), (∀ c ∈ hash.toList, isBreak c = false) → ∀ text,
          render keys resolve s hash = some text →
            ∃ addresses, List.Forall₂ (Reached resolve) s.backends addresses ∧
              parse text = some (statements keys s addresses) := by
  refine ⟨lex_luaString, fun raw s hdecode keys resolve hash hhash text hrender => ?_⟩
  have hs := readable_of_decode hdecode
  obtain ⟨addresses, haddresses, rfl⟩ := render_eq hs hrender
  refine ⟨addresses, reached_of_mapM (fun b hb => (hs.backends b hb).2.2) haddresses, ?_⟩
  have hline : ∀ c ∈ " generated by adguard-admin-agent; hash ".toList ++ hash.toList,
      isBreak c = false := by
    rw [List.forall_mem_append]
    exact ⟨List.all_iff_forall_prop.mp (by decide), hhash⟩
  rw [← List.append_assoc]
  have hopen : (" generated by adguard-admin-agent; hash ".toList ++ hash.toList).head? ≠
      some '[' := by
    rw [List.head?_append_of_ne_nil _ (by decide)]
    decide
  exact parse_write luaQuoting hline hopen (okStat_statements hs keys addresses)

/-- A spec that leaves all but its backend to the defaults. -/
def oneBackend : Json Int :=
  .obj [("backends", .arr [.obj [("name", .str "dns-a"), ("address", .str "10.0.0.11")]])]

/-- A spec with one backend is read back. -/
theorem oneBackend_reads_back : ∃ s text addresses, decode oneBackend = .ok s ∧
    render ⟨"api", "console"⟩ (fun _ => none) s "00ff" = some text ∧
      parse text = some (statements ⟨"api", "console"⟩ s addresses) := by
  have haccepted : ∃ s, decode oneBackend = .ok s ∧
      (render ⟨"api", "console"⟩ (fun _ => none) s "00ff").isSome := ⟨_, rfl, rfl⟩
  obtain ⟨s, hdecode, hsome⟩ := haccepted
  obtain ⟨text, hrender⟩ := Option.isSome_iff_exists.mp hsome
  obtain ⟨addresses, -, hparse⟩ := render_reads_back.2 oneBackend s hdecode ⟨"api", "console"⟩
    (fun _ => none) "00ff" (List.all_iff_forall_prop.mp (by decide)) text
      hrender
  exact ⟨s, text, addresses, hdecode, hrender, hparse⟩

end AdguardAdmin.Dnsdist
