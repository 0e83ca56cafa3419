import RuleEngine.Proofs.Parse.Grammar

/-!
# What the fold of a derivation leaves in the pool

`Phrase.build` only ever adds nodes through `applyOperator`, and each of these
refers to nodes that were there before.  This holds for any desugarings, since
they have no other way into the pool.

What can be said of a single operator, then, can be said of a whole derivation, and the
induction is the same each time: `Phrase.build_preserves` has it.  Of the pools that the
fold goes through, each extends the one before, so an operand that was folded early still
leads to its node when the operators around it are applied.

## Main definitions

* `Pool.Extends` - all nodes of one pool are nodes of another, with the same
  indices.
* `Pool.Acyclic` - every node refers to earlier nodes only.
* `Operand.Within` - an operand leads to a node of the pool, if to any.

## Main statements

* `applyOperator_eq_ok_iff` - when an operator can be applied.
* `Phrase.build_preserves` - what the operators preserve is preserved by the fold.
* `Phrase.extends_of_build` - all nodes stay as they are.
* `Phrase.within_of_build`, `Phrase.acyclic_of_build` - the result is in the
  pool, and the pool is acyclic.
-/

namespace RuleEngine

/-- The steps of a computation that succeeds succeed.  This is how the fold of a derivation is
taken apart, one operand after the other. -/
theorem exists_of_bind_eq_ok {ε α β : Type} {x : Except ε α} {f : α → Except ε β} {b : β}
    (h : (x >>= f) = .ok b) : ∃ a, x = .ok a ∧ f a = .ok b := by
  cases x with
  | error e => cases h
  | ok a => exact ⟨a, rfl, h⟩

/-- A computation goes on with the result of its first step. -/
theorem bind_of_eq_ok {ε α β : Type} {m : Except ε α} {f : α → Except ε β} {a : α}
    (h : m = .ok a) : (m >>= f) = f a := by
  rw [h]
  rfl

/-- It ends with the failure of its first step, and the steps behind have no say. -/
theorem bind_of_eq_error {ε α β : Type} {m : Except ε α} {f : α → Except ε β} {e : ε}
    (h : m = .error e) : (m >>= f) = .error e := by
  rw [h]
  rfl

namespace Pool

variable {pool pool' pool'' : Pool} {node : Node}

/-- All nodes of `pool` are nodes of `pool'`, with the same indices. -/
def Extends (pool pool' : Pool) : Prop :=
  ∀ i node, pool.get? i = some node → pool'.get? i = some node

theorem Extends.refl (pool : Pool) : pool.Extends pool :=
  fun _ _ h => h

/-- Nodes that stay in one pool, and then in the next, stay in both.  A run of additions is an
extension in this way. -/
theorem Extends.trans (h : pool.Extends pool') (h' : pool'.Extends pool'') :
    pool.Extends pool'' :=
  fun i node hi => h' i node (h i node hi)

/-- An index under which there is a node is below the size of the pool. -/
theorem lt_of_get? {i : Nat} (h : pool.get? i = some node) : i < pool.size := by
  refine Nat.lt_of_not_le fun beyond => ?_
  rw [get?_eq_none_iff.mpr beyond] at h
  cases h

/-- To add a node changes none of the others, since it is put behind them. -/
theorem extends_push (pool : Pool) (node : Node) : pool.Extends (pool.push node) := by
  intro i other h
  rw [get?_push, if_neg (Nat.ne_of_lt (lt_of_get? h))]
  exact h

/-- The node that is added has the old size as its index. -/
theorem get?_push_size (pool : Pool) (node : Node) :
    (pool.push node).get? pool.size = some node := by
  rw [get?_push, if_pos rfl]

/-- Every node refers to earlier nodes only. -/
def Acyclic (pool : Pool) : Prop :=
  ∀ i node, pool.get? i = some node → ∀ j ∈ node.references, j < i

theorem acyclic_empty : Acyclic .empty :=
  fun _ _ h => absurd (lt_of_get? h) (Nat.not_lt_zero _)

/-- A node that the pool accepts refers to earlier nodes, and the others are as they were.  So
acyclic pools stay acyclic. -/
theorem Acyclic.push (h : pool.Acyclic) (accepted : pool.accepts node) :
    (pool.push node).Acyclic := by
  intro i other hi
  rw [get?_push] at hi
  split at hi
  · rename_i last
    cases hi
    rw [last]
    exact accepts_iff.mp accepted
  · exact h i other hi

end Pool

/-- An operand leads to a node of the pool, if to any. -/
def Operand.Within (pool : Pool) (x : Operand) : Prop :=
  ∀ i, x.reference? = some i → i < pool.size

/-- A node whose operands lead to nodes of the pool is accepted. -/
theorem Pool.accepts_of_within {pool : Pool} {name : String} {operands : List Operand}
    (h : ∀ x ∈ operands, x.Within pool) : pool.accepts ⟨name, operands⟩ := by
  rw [accepts_iff]
  intro i hi
  obtain ⟨x, hx, leads⟩ := List.mem_filterMap.mp hi
  exact h x hx i leads

namespace Parse

variable {registry : Registry} {name : String} {operands : List Operand} {pool : Pool}
variable {parsed : Parsed}

/-- An operator can be applied if it is registered and its desugaring makes a node that the pool
accepts.  The new operand is the index of that node, which is the last one of the pool. -/
theorem applyOperator_eq_ok_iff : applyOperator registry name operands pool = .ok parsed ↔
    ∃ d node, registry.find? ⟨name, operands.length⟩ = some d ∧
      d.nodeFor pool ⟨name, operands⟩ = .ok node ∧ pool.accepts node ∧
      parsed = ⟨.node pool.size, pool.push node⟩ := by
  unfold applyOperator
  constructor
  · intro h
    split at h
    · cases h
    · rename_i d found
      split at h
      · cases h
      · rename_i node made
        split at h
        · rename_i accepted
          exact ⟨d, node, found, made, accepted, (Except.ok.inj h).symm⟩
        · cases h
  · rintro ⟨d, node, found, made, accepted, rfl⟩
    simp only [found, made, if_pos accepted]

namespace Phrase

variable {category : Category} {d : Phrase category}

/-- **What the operators preserve is preserved by the fold.**  The only way in which a derivation
changes a pool is to apply its operators, so an induction over derivations is needed once, here. -/
theorem build_preserves {P : Pool → Prop}
    (step : ∀ name operands pool parsed,
      applyOperator registry name operands pool = .ok parsed → P pool → P parsed.pool)
    (h : d.build registry pool = .ok parsed) (start : P pool) : P parsed.pool := by
  induction d generalizing pool parsed with
  | literal text =>
      cases h
      exact start
  | paren inner ih => exact ih h start
  | brace inner ih =>
      obtain ⟨p, hp, h⟩ := exists_of_bind_eq_ok h
      cases h
      have := ih hp start
      exact this
  | prefix1 name x ih =>
      obtain ⟨p, hp, h⟩ := exists_of_bind_eq_ok h
      exact step _ _ _ _ h (ih hp start)
  | prefix3 name x y z ihx ihy ihz =>
      obtain ⟨p, hp, h⟩ := exists_of_bind_eq_ok h
      obtain ⟨q, hq, h⟩ := exists_of_bind_eq_ok h
      obtain ⟨r, hr, h⟩ := exists_of_bind_eq_ok h
      exact step _ _ _ _ h (ihz hr (ihy hq (ihx hp start)))
  | single x ih => exact ih h start
  | infix2 x name y ihx ihy =>
      obtain ⟨p, hp, h⟩ := exists_of_bind_eq_ok h
      obtain ⟨q, hq, h⟩ := exists_of_bind_eq_ok h
      exact step _ _ _ _ h (ihy hq (ihx hp start))

/-- The fold changes no node that was made before.  References to earlier nodes may therefore be
kept while it goes on. -/
theorem extends_of_build (h : d.build registry pool = .ok parsed) :
    pool.Extends parsed.pool := by
  refine build_preserves ?_ h (.refl pool)
  intro name operands p parsed applied more
  obtain ⟨d, node, -, -, -, rfl⟩ := applyOperator_eq_ok_iff.mp applied
  exact more.trans (p.extends_push node)

/-- Braces around an operand lead to where the operand itself leads. -/
theorem reference?_braced (x : Operand) : (braced x).reference? = x.reference? := by
  cases x <;> rfl

/-- The operand of an operator leads to the node that has just been made. -/
theorem within_of_applyOperator (h : applyOperator registry name operands pool = .ok parsed) :
    parsed.root.Within parsed.pool := by
  obtain ⟨d, node, -, -, -, rfl⟩ := applyOperator_eq_ok_iff.mp h
  intro i hi
  cases hi
  rw [Pool.size_push]
  exact Nat.lt_succ_self _

/-- The operand of a derivation leads to a node of its pool, if it is no literal. -/
theorem within_of_build (h : d.build registry pool = .ok parsed) :
    parsed.root.Within parsed.pool := by
  induction d generalizing pool parsed with
  | literal text =>
      cases h
      exact nofun
  | paren inner ih => exact ih h
  | brace inner ih =>
      obtain ⟨p, hp, h⟩ := exists_of_bind_eq_ok h
      cases h
      intro i hi
      rw [reference?_braced] at hi
      exact ih hp i hi
  | prefix1 name x ih =>
      obtain ⟨p, hp, h⟩ := exists_of_bind_eq_ok h
      exact within_of_applyOperator h
  | prefix3 name x y z ihx ihy ihz =>
      obtain ⟨p, hp, h⟩ := exists_of_bind_eq_ok h
      obtain ⟨q, hq, h⟩ := exists_of_bind_eq_ok h
      obtain ⟨r, hr, h⟩ := exists_of_bind_eq_ok h
      exact within_of_applyOperator h
  | single x ih => exact ih h
  | infix2 x name y ihx ihy =>
      obtain ⟨p, hp, h⟩ := exists_of_bind_eq_ok h
      obtain ⟨q, hq, h⟩ := exists_of_bind_eq_ok h
      exact within_of_applyOperator h

/-- **The pool of a derivation is acyclic**, whatever the desugarings do.  The answer of a
desugaring is checked before it is added, so it cannot refer to itself or ahead. -/
theorem acyclic_of_build (h : d.build registry pool = .ok parsed) (start : pool.Acyclic) :
    parsed.pool.Acyclic := by
  refine build_preserves ?_ h start
  intro name operands pool parsed applied acyclic
  obtain ⟨d, node, -, -, accepted, rfl⟩ := applyOperator_eq_ok_iff.mp applied
  exact acyclic.push accepted

end Phrase

end Parse

end RuleEngine
