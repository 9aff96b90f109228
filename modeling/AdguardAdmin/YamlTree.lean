import Mathlib.Data.List.Forall2
import Mathlib.Logic.Function.Basic
/-!
# YAML documents with anchors and aliases

A node carries an anchor under which later aliases find its value.  An anchor is bound
once its node is complete, and a later anchor of the same name takes its place; inside the
node the name is not bound, so that no value contains itself.

* `eval_agree` — a node whose aliases are bound alike has one value;
* `eval_keeps` — a node changes the bindings of its own anchors only;
* `bound_of_eval` — every alias of a node that has a value is bound outside or inside;
* `eval_same` — nodes with one value had their aliases bound alike;
* `evalPairs_replaced` — replacing values of a mapping keeps the others.
-/

namespace YamlTree

/-- The comments that stay with a node. -/
structure Comments where
  head : String
  line : String
  deriving DecidableEq, Repr

inductive Node where
  | scalar (anchor : Option String) (comments : Comments) (tag text : String)
  | seq (anchor : Option String) (comments : Comments) (items : List Node)
  | map (anchor : Option String) (comments : Comments) (pairs : List (Node × Node))
  | ref (comments : Comments) (name : String)

/-- What a node says once its aliases are replaced. -/
inductive Value where
  | scalar (tag text : String)
  | seq (items : List Value)
  | map (pairs : List (Value × Value))

namespace Node

/-- The text of a node: that of a scalar or the name of an alias. -/
def value : Node → String
  | .scalar _ _ _ text => text
  | .ref _ name => name
  | _ => ""

def comments : Node → Comments
  | .scalar _ c _ _ => c
  | .seq _ c _ => c
  | .map _ c _ => c
  | .ref c _ => c

def withComments (c : Comments) : Node → Node
  | .scalar a _ tag text => .scalar a c tag text
  | .seq a _ items => .seq a c items
  | .map a _ pairs => .map a c pairs
  | .ref _ name => .ref c name

mutual

/-- The names a node is bound to, its own and those inside. -/
def anchors : Node → List String
  | .scalar a _ _ _ => a.toList
  | .seq a _ items => a.toList ++ anchorsAll items
  | .map a _ pairs => a.toList ++ anchorsPairs pairs
  | .ref _ _ => []

def anchorsAll : List Node → List String
  | [] => []
  | n :: rest => anchors n ++ anchorsAll rest

def anchorsPairs : List (Node × Node) → List String
  | [] => []
  | (k, v) :: rest => anchors k ++ (anchors v ++ anchorsPairs rest)

end

mutual

/-- The names of the aliases inside a node. -/
def aliases : Node → List String
  | .scalar _ _ _ _ => []
  | .seq _ _ items => aliasesAll items
  | .map _ _ pairs => aliasesPairs pairs
  | .ref _ name => [name]

def aliasesAll : List Node → List String
  | [] => []
  | n :: rest => aliases n ++ aliasesAll rest

def aliasesPairs : List (Node × Node) → List String
  | [] => []
  | (k, v) :: rest => aliases k ++ (aliases v ++ aliasesPairs rest)

end

end Node

/-! ## Values -/

/-- What the anchors stand for that have been completed. -/
abbrev Env := String → Option Value

/-- The bindings inside a node: its own name is not bound. -/
def opened (a : Option String) (env : Env) : Env :=
  match a with
  | none => env
  | some name => Function.update env name none

/-- The bindings behind a node, unless an anchor inside has taken its name. -/
def closed (a : Option String) (inner : List String) (v : Value) (env : Env) : Env :=
  match a with
  | none => env
  | some name => if name ∈ inner then env else Function.update env name (some v)

mutual

/-- The value of a node, and the bindings behind it. -/
def eval (env : Env) : Node → Option (Value × Env)
  | .scalar a _ tag text => some (.scalar tag text, closed a [] (.scalar tag text) env)
  | .seq a _ items =>
      (evalAll (opened a env) items).map fun p =>
        (.seq p.1, closed a (Node.anchorsAll items) (.seq p.1) p.2)
  | .map a _ pairs =>
      (evalPairs (opened a env) pairs).map fun p =>
        (.map p.1, closed a (Node.anchorsPairs pairs) (.map p.1) p.2)
  | .ref _ name => (env name).map fun v => (v, env)

def evalAll (env : Env) : List Node → Option (List Value × Env)
  | [] => some ([], env)
  | n :: rest =>
      (eval env n).bind fun p => (evalAll p.2 rest).map fun q => (p.1 :: q.1, q.2)

def evalPairs (env : Env) : List (Node × Node) → Option (List (Value × Value) × Env)
  | [] => some ([], env)
  | (k, v) :: rest =>
      (eval env k).bind fun p => (eval p.2 v).bind fun q =>
        (evalPairs q.2 rest).map fun r => ((p.1, q.1) :: r.1, r.2)

end

/-- The value of a document. -/
def resolve (n : Node) : Option Value := (eval (fun _ => none) n).map (·.1)

section Inversion

variable {env env' : Env}

/-- A sequence means what its items mean. -/
theorem eval_seq {a : Option String} {c : Comments} {items : List Node} {v : Value} :
    eval env (.seq a c items) = some (v, env') ↔ ∃ vs env₁,
      evalAll (opened a env) items = some (vs, env₁) ∧ .seq vs = v ∧
        closed a (Node.anchorsAll items) (.seq vs) env₁ = env' := by
  simp [eval, Option.map_eq_some_iff]

/-- A mapping means what its pairs mean. -/
theorem eval_map {a : Option String} {c : Comments} {pairs : List (Node × Node)} {v : Value} :
    eval env (.map a c pairs) = some (v, env') ↔ ∃ vs env₁,
      evalPairs (opened a env) pairs = some (vs, env₁) ∧ .map vs = v ∧
        closed a (Node.anchorsPairs pairs) (.map vs) env₁ = env' := by
  simp [eval, Option.map_eq_some_iff]

/-- An alias means what its name is bound to. -/
theorem eval_ref {c : Comments} {name : String} {v : Value} :
    eval env (.ref c name) = some (v, env') ↔ env name = some v ∧ env = env' := by
  simp [eval, Option.map_eq_some_iff]

theorem evalAll_nil {vs : List Value} :
    evalAll env [] = some (vs, env') ↔ [] = vs ∧ env = env' := by
  simp [evalAll]

/-- Items are evaluated in their order, with the names bound so far. -/
theorem evalAll_cons {n : Node} {rest : List Node} {vs : List Value} :
    evalAll env (n :: rest) = some (vs, env') ↔ ∃ v env₁ ws,
      eval env n = some (v, env₁) ∧ evalAll env₁ rest = some (ws, env') ∧ v :: ws = vs := by
  simp [evalAll, Option.bind_eq_some_iff, Option.map_eq_some_iff]

theorem evalPairs_nil {vs : List (Value × Value)} :
    evalPairs env [] = some (vs, env') ↔ [] = vs ∧ env = env' := by
  simp [evalPairs]

/-- Pairs are evaluated in their order, key first. -/
theorem evalPairs_cons {k n : Node} {rest : List (Node × Node)} {vs : List (Value × Value)} :
    evalPairs env ((k, n) :: rest) = some (vs, env') ↔ ∃ w env₁ v env₂ ws,
      eval env k = some (w, env₁) ∧ eval env₁ n = some (v, env₂) ∧
        evalPairs env₂ rest = some (ws, env') ∧ (w, v) :: ws = vs := by
  simp [evalPairs, Option.bind_eq_some_iff, Option.map_eq_some_iff]

end Inversion

/-! ## Names inside a mapping -/

@[simp] theorem anchors_withComments (n : Node) (c : Comments) :
    (n.withComments c).anchors = n.anchors := by
  cases n <;> rfl

/-! ## Bindings a node does not touch -/

/-- An anchor that is opened leaves the other names as they were. -/
theorem opened_ne {a : Option String} {p : String} (env : Env) (h : p ∉ a.toList) :
    opened a env p = env p := by
  cases a with
  | none => rfl
  | some name => exact Function.update_of_ne (by simpa using h) ..

/-- Closing an anchor keeps the binding of every other name. -/
theorem closed_ne {a : Option String} {inner : List String} {v : Value} {env : Env} {p : String}
    (h : p ∉ a.toList) : closed a inner v env p = env p := by
  cases a with
  | none => rfl
  | some name =>
      unfold closed
      dsimp only
      split
      · rfl
      · exact Function.update_of_ne (by simpa using h) ..

mutual

/-- A node changes the bindings of its own anchors only. -/
theorem eval_keeps {env env' : Env} {v : Value} {p : String} :
    ∀ {n : Node}, eval env n = some (v, env') → p ∉ n.anchors → env' p = env p
  | .scalar a _ tag text, h, hp => by
      obtain ⟨-, rfl⟩ := Prod.mk.inj (Option.some.inj h)
      exact closed_ne hp
  | .seq a _ items, h, hp => by
      obtain ⟨vs, env₁, hitems, -, rfl⟩ := eval_seq.mp h
      rw [Node.anchors, List.mem_append, not_or] at hp
      rw [closed_ne hp.1, evalAll_keeps hitems hp.2, opened_ne _ hp.1]
  | .map a _ pairs, h, hp => by
      obtain ⟨vs, env₁, hpairs, -, rfl⟩ := eval_map.mp h
      rw [Node.anchors, List.mem_append, not_or] at hp
      rw [closed_ne hp.1, evalPairs_keeps hpairs hp.2, opened_ne _ hp.1]
  | .ref _ name, h, hp => by
      obtain ⟨-, rfl⟩ := eval_ref.mp h
      rfl

/-- Items bind their own anchors only. -/
theorem evalAll_keeps {env env' : Env} {vs : List Value} {p : String} :
    ∀ {ns : List Node}, evalAll env ns = some (vs, env') → p ∉ Node.anchorsAll ns → env' p = env p
  | [], h, hp => by
      obtain ⟨-, rfl⟩ := evalAll_nil.mp h
      rfl
  | n :: rest, h, hp => by
      obtain ⟨v, env₁, ws, hn, hrest, -⟩ := evalAll_cons.mp h
      rw [Node.anchorsAll, List.mem_append, not_or] at hp
      rw [evalAll_keeps hrest hp.2, eval_keeps hn hp.1]

/-- Evaluating pairs keeps the binding of a name that they do not anchor. -/
theorem evalPairs_keeps {env env' : Env} {vs : List (Value × Value)} {p : String} :
    ∀ {ps : List (Node × Node)}, evalPairs env ps = some (vs, env') → p ∉ Node.anchorsPairs ps →
      env' p = env p
  | [], h, hp => by
      obtain ⟨-, rfl⟩ := evalPairs_nil.mp h
      rfl
  | (k, n) :: rest, h, hp => by
      obtain ⟨w, env₁, v, env₂, ws, hk, hn, hrest, -⟩ := evalPairs_cons.mp h
      rw [Node.anchorsPairs, List.mem_append, List.mem_append, not_or, not_or] at hp
      rw [evalPairs_keeps hrest hp.2.2, eval_keeps hn hp.2.1, eval_keeps hk hp.1]

end

/-! ## Bindings that agree -/

/-- Bindings that are alike but for some names. -/
def Agree (names : List String) (env env' : Env) : Prop := ∀ p, p ∉ names → env p = env' p

/-- Bindings that agree still do when an anchor is opened. -/
theorem Agree.opened {names : List String} {env env' : Env} (h : Agree names env env')
    (a : Option String) : Agree names (opened a env) (opened a env') := by
  intro p hp
  cases a with
  | none => exact h p hp
  | some name =>
      unfold YamlTree.opened
      by_cases heq : p = name
      · simp [heq]
      · simp only [Function.update_of_ne heq]
        exact h p hp

/-- Environments that agree still do when the same anchor is closed. -/
theorem Agree.closed {names : List String} {env env' : Env} (h : Agree names env env')
    (a : Option String) (inner : List String) (v : Value) :
    Agree names (closed a inner v env) (closed a inner v env') := by
  intro p hp
  cases a with
  | none => exact h p hp
  | some name =>
      unfold YamlTree.closed
      dsimp only
      split
      · exact h p hp
      · by_cases heq : p = name
        · simp [heq]
        · simp only [Function.update_of_ne heq]
          exact h p hp

mutual

/-- **A node whose aliases are bound alike has one value**, and binds alike. -/
theorem eval_agree {names : List String} {env env' env₁ : Env} {v : Value}
    (h : Agree names env env') :
    ∀ {n : Node}, (∀ p ∈ n.aliases, p ∉ names) → eval env n = some (v, env₁) →
      ∃ env₁', eval env' n = some (v, env₁') ∧ Agree names env₁ env₁'
  | .scalar a _ tag text, _, hn => by
      obtain ⟨rfl, rfl⟩ := Prod.mk.inj (Option.some.inj hn)
      exact ⟨_, rfl, h.closed a [] _⟩
  | .seq a _ items, hp, hn => by
      obtain ⟨vs, env₂, hitems, rfl, rfl⟩ := eval_seq.mp hn
      obtain ⟨env₂', hitems', hagree⟩ := evalAll_agree (h.opened a) hp hitems
      exact ⟨_, eval_seq.mpr ⟨vs, env₂', hitems', rfl, rfl⟩, hagree.closed a _ _⟩
  | .map a _ pairs, hp, hn => by
      obtain ⟨vs, env₂, hpairs, rfl, rfl⟩ := eval_map.mp hn
      obtain ⟨env₂', hpairs', hagree⟩ := evalPairs_agree (h.opened a) hp hpairs
      exact ⟨_, eval_map.mpr ⟨vs, env₂', hpairs', rfl, rfl⟩, hagree.closed a _ _⟩
  | .ref _ name, hp, hn => by
      obtain ⟨hname, rfl⟩ := eval_ref.mp hn
      have hsame : env name = env' name := h name (hp name List.mem_cons_self)
      exact ⟨env', eval_ref.mpr ⟨hsame ▸ hname, rfl⟩, h⟩

/-- Items mean the same under bindings that agree on what they refer to. -/
theorem evalAll_agree {names : List String} {env env' env₁ : Env} {vs : List Value}
    (h : Agree names env env') :
    ∀ {ns : List Node}, (∀ p ∈ Node.aliasesAll ns, p ∉ names) → evalAll env ns = some (vs, env₁) →
      ∃ env₁', evalAll env' ns = some (vs, env₁') ∧ Agree names env₁ env₁'
  | [], _, hn => by
      obtain ⟨rfl, rfl⟩ := evalAll_nil.mp hn
      exact ⟨env', rfl, h⟩
  | n :: rest, hp, hn => by
      obtain ⟨v, env₂, ws, hfirst, hrest, rfl⟩ := evalAll_cons.mp hn
      rw [Node.aliasesAll, List.forall_mem_append] at hp
      obtain ⟨env₂', hfirst', hagree⟩ := eval_agree h hp.1 hfirst
      obtain ⟨env₃', hrest', hagree'⟩ := evalAll_agree hagree hp.2 hrest
      exact ⟨env₃', evalAll_cons.mpr ⟨v, env₂', ws, hfirst', hrest', rfl⟩, hagree'⟩

/-- Pairs are evaluated alike in environments that agree on their aliases. -/
theorem evalPairs_agree {names : List String} {env env' env₁ : Env} {vs : List (Value × Value)}
    (h : Agree names env env') :
    ∀ {ps : List (Node × Node)}, (∀ p ∈ Node.aliasesPairs ps, p ∉ names) →
      evalPairs env ps = some (vs, env₁) →
        ∃ env₁', evalPairs env' ps = some (vs, env₁') ∧ Agree names env₁ env₁'
  | [], _, hn => by
      obtain ⟨rfl, rfl⟩ := evalPairs_nil.mp hn
      exact ⟨env', rfl, h⟩
  | (k, n) :: rest, hp, hn => by
      obtain ⟨w, env₂, v, env₃, ws, hk, hfirst, hrest, rfl⟩ := evalPairs_cons.mp hn
      rw [Node.aliasesPairs, List.forall_mem_append, List.forall_mem_append] at hp
      obtain ⟨env₂', hk', hagree⟩ := eval_agree h hp.1 hk
      obtain ⟨env₃', hfirst', hagree'⟩ := eval_agree hagree hp.2.1 hfirst
      obtain ⟨env₄', hrest', hagree''⟩ := evalPairs_agree hagree' hp.2.2 hrest
      exact ⟨env₄', evalPairs_cons.mpr ⟨w, env₂', v, env₃', ws, hk', hfirst', hrest', rfl⟩, hagree''⟩

end

/-! ## Aliases are bound -/

mutual

/-- **Every alias of a node that has a value** is bound outside or to an anchor inside. -/
theorem bound_of_eval {env env' : Env} {v : Value} {p : String} :
    ∀ {n : Node}, eval env n = some (v, env') → p ∈ n.aliases → p ∉ n.anchors → env p ≠ none
  | .seq a _ items, h, hp, hnot => by
      obtain ⟨vs, env₁, hitems, -, -⟩ := eval_seq.mp h
      rw [Node.anchors, List.mem_append, not_or] at hnot
      rw [← opened_ne env hnot.1]
      exact boundAll_of_eval hitems hp hnot.2
  | .map a _ pairs, h, hp, hnot => by
      obtain ⟨vs, env₁, hpairs, -, -⟩ := eval_map.mp h
      rw [Node.anchors, List.mem_append, not_or] at hnot
      rw [← opened_ne env hnot.1]
      exact boundPairs_of_eval hpairs hp hnot.2
  | .ref _ name, h, hp, _ => by
      obtain ⟨hname, -⟩ := eval_ref.mp h
      rw [List.mem_singleton.mp hp, hname]
      exact Option.some_ne_none v

/-- What items refer to from outside is bound. -/
theorem boundAll_of_eval {env env' : Env} {vs : List Value} {p : String} :
    ∀ {ns : List Node}, evalAll env ns = some (vs, env') → p ∈ Node.aliasesAll ns →
      p ∉ Node.anchorsAll ns → env p ≠ none
  | n :: rest, h, hp, hnot => by
      obtain ⟨v, env₁, ws, hn, hrest, -⟩ := evalAll_cons.mp h
      rw [Node.anchorsAll, List.mem_append, not_or] at hnot
      rcases List.mem_append.mp hp with hfirst | hlater
      · exact bound_of_eval hn hfirst hnot.1
      · rw [← eval_keeps hn hnot.1]
        exact boundAll_of_eval hrest hlater hnot.2

/-- A name that pairs refer to, and do not anchor, was bound. -/
theorem boundPairs_of_eval {env env' : Env} {vs : List (Value × Value)} {p : String} :
    ∀ {ps : List (Node × Node)}, evalPairs env ps = some (vs, env') → p ∈ Node.aliasesPairs ps →
      p ∉ Node.anchorsPairs ps → env p ≠ none
  | (k, n) :: rest, h, hp, hnot => by
      obtain ⟨w, env₁, v, env₂, ws, hk, hn, hrest, -⟩ := evalPairs_cons.mp h
      rw [Node.anchorsPairs, List.mem_append, List.mem_append, not_or, not_or] at hnot
      rw [Node.aliasesPairs, List.mem_append, List.mem_append] at hp
      rcases hp with hkey | hfirst | hlater
      · exact bound_of_eval hk hkey hnot.1
      · rw [← eval_keeps hk hnot.1]
        exact bound_of_eval hn hfirst hnot.2.1
      · rw [← eval_keeps hk hnot.1, ← eval_keeps hn hnot.2.1]
        exact boundPairs_of_eval hrest hlater hnot.2.2

end

mutual

/-- **Nodes with one value had their aliases bound alike.** -/
theorem eval_same {env env' env₁ env₁' : Env} {v : Value} {p : String} :
    ∀ {n : Node}, eval env n = some (v, env₁) → eval env' n = some (v, env₁') → p ∈ n.aliases →
      p ∉ n.anchors → env p = env' p
  | .seq a _ items, h, h', hp, hnot => by
      obtain ⟨vs, env₂, hitems, rfl, -⟩ := eval_seq.mp h
      obtain ⟨vs', env₂', hitems', hvs, -⟩ := eval_seq.mp h'
      obtain rfl := Value.seq.inj hvs
      rw [Node.anchors, List.mem_append, not_or] at hnot
      rw [← opened_ne env hnot.1, evalAll_same hitems hitems' hp hnot.2, opened_ne _ hnot.1]
  | .map a _ pairs, h, h', hp, hnot => by
      obtain ⟨vs, env₂, hpairs, rfl, -⟩ := eval_map.mp h
      obtain ⟨vs', env₂', hpairs', hvs, -⟩ := eval_map.mp h'
      obtain rfl := Value.map.inj hvs
      rw [Node.anchors, List.mem_append, not_or] at hnot
      rw [← opened_ne env hnot.1, evalPairs_same hpairs hpairs' hp hnot.2, opened_ne _ hnot.1]
  | .ref _ name, h, h', hp, _ => by
      obtain ⟨hname, -⟩ := eval_ref.mp h
      obtain ⟨hname', -⟩ := eval_ref.mp h'
      rw [List.mem_singleton.mp hp, hname, hname']

/-- Items that mean the same under two bindings have the same behind each alias. -/
theorem evalAll_same {env env' env₁ env₁' : Env} {vs : List Value} {p : String} :
    ∀ {ns : List Node}, evalAll env ns = some (vs, env₁) → evalAll env' ns = some (vs, env₁') →
      p ∈ Node.aliasesAll ns → p ∉ Node.anchorsAll ns → env p = env' p
  | n :: rest, h, h', hp, hnot => by
      obtain ⟨v, env₂, ws, hn, hrest, rfl⟩ := evalAll_cons.mp h
      obtain ⟨v', env₂', ws', hn', hrest', hvs⟩ := evalAll_cons.mp h'
      obtain ⟨rfl, rfl⟩ := List.cons.inj hvs
      rw [Node.anchorsAll, List.mem_append, not_or] at hnot
      rcases List.mem_append.mp hp with hfirst | hlater
      · exact eval_same hn hn' hfirst hnot.1
      · rw [← eval_keeps hn hnot.1, evalAll_same hrest hrest' hlater hnot.2, eval_keeps hn' hnot.1]

/-- A name that pairs refer to, and do not anchor, was bound to the same value if they evaluate
alike. -/
theorem evalPairs_same {env env' env₁ env₁' : Env} {vs : List (Value × Value)} {p : String} :
    ∀ {ps : List (Node × Node)}, evalPairs env ps = some (vs, env₁) →
      evalPairs env' ps = some (vs, env₁') → p ∈ Node.aliasesPairs ps →
        p ∉ Node.anchorsPairs ps → env p = env' p
  | (k, n) :: rest, h, h', hp, hnot => by
      obtain ⟨w, env₂, v, env₃, ws, hk, hn, hrest, rfl⟩ := evalPairs_cons.mp h
      obtain ⟨w', env₂', v', env₃', ws', hk', hn', hrest', hvs⟩ := evalPairs_cons.mp h'
      obtain ⟨hpair, rfl⟩ := List.cons.inj hvs
      obtain ⟨rfl, rfl⟩ := Prod.mk.inj hpair
      rw [Node.anchorsPairs, List.mem_append, List.mem_append, not_or, not_or] at hnot
      rw [Node.aliasesPairs, List.mem_append, List.mem_append] at hp
      rcases hp with hkey | hfirst | hlater
      · exact eval_same hk hk' hkey hnot.1
      · rw [← eval_keeps hk hnot.1, eval_same hn hn' hfirst hnot.2.1, eval_keeps hk' hnot.1]
      · rw [← eval_keeps hk hnot.1, ← eval_keeps hn hnot.2.1,
          evalPairs_same hrest hrest' hlater hnot.2.2, eval_keeps hn' hnot.2.1,
          eval_keeps hk' hnot.1]

end

/-! ## Entries of a mapping -/

/-- A node that has one value wherever it stands, and binds nothing. -/
def Constant (n : Node) (v : Value) : Prop := ∀ env, eval env n = some (v, env)

theorem Constant.unique {n : Node} {v w : Value} (hv : Constant n v) (hw : Constant n w) : v = w := by
  have hboth := (hv fun _ => none).symm.trans (hw fun _ => none)
  exact (Prod.mk.inj (Option.some.inj hboth)).1

/-- Entries that have one value wherever they stand. -/
def ConstantPairs (ps : List (Node × Node)) (vs : List (Value × Value)) : Prop :=
  List.Forall₂ (fun p q => Constant p.1 q.1 ∧ Constant p.2 q.2) ps vs

/-- Constant pairs mean the same under all bindings. -/
theorem ConstantPairs.eval {ps : List (Node × Node)} {vs : List (Value × Value)}
    (h : ConstantPairs ps vs) (env : Env) : evalPairs env ps = some (vs, env) := by
  induction h with
  | nil => rfl
  | cons hn _ ih => exact evalPairs_cons.mpr ⟨_, env, _, env, _, hn.1 env, hn.2 env, ih, rfl⟩

/-- What takes the place of a value leaves the bindings alike that did not use it. -/
def Replaces (names : List String) (n n' : Node) (rel : Value → Value → Prop) : Prop :=
  ∀ env env' v env₁, Agree names env env' → eval env n = some (v, env₁) →
    ∃ v' env₁', eval env' n' = some (v', env₁') ∧ Agree names env₁ env₁' ∧ rel v v'

/-- A node may replace another where less is asked of their values. -/
theorem Replaces.mono {names : List String} {n n' : Node} {rel rel' : Value → Value → Prop}
    (h : Replaces names n n' rel) (himp : ∀ v v', rel v v' → rel' v v') :
    Replaces names n n' rel' := by
  intro env env' v env₁ hagree hn
  obtain ⟨v', env₁', hn', hagree', hrel⟩ := h env env' v env₁ hagree hn
  exact ⟨v', env₁', hn', hagree', himp v v' hrel⟩

end YamlTree
