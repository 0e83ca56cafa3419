import RuleEngine.Proofs.Operation.Alike
import RuleEngine.Proofs.Operation.Unfold
import RuleEngine.Proofs.Standard.Desugaring

/-!
# The tree of a derivation

A derivation is folded over a pool, and the nodes that are there already decide
which indices the new ones get.  They decide nothing else.  The standard desugarings
look at the pool, but only at what the operands lead to; so over any two pools a
derivation comes to operands that unfold to the same tree, or it fails with the same
fault.

This is what allows to put an expression into another one.  Its nodes then come after
those that are folded before it, and have other indices; but the tree is the one of the
expression on its own, and evaluation depends on the tree alone.  Registries with other
desugarings have no such theorem, as a desugaring may look at the size of the pool.

## Main definitions

* `Pool.SameTrees` - operands of two pools unfold to the same trees.
* `Parse.SameFold` - two folds add to their pools and come to the same tree.
* `Standard.Steady` - a registration makes the same of operands with the same trees.

## Main statements

* `Standard.steady_library` - all of the standard library does.
* `Standard.apply_same`, `Standard.build_same` - operators and derivations do not
  depend on the pool.
-/

namespace RuleEngine

/-! ### Operands of two pools -/

namespace Pool

/-- The operands unfold to the same trees, each in its own pool. -/
def SameTrees (pool pool' : Pool) (xs ys : List Operand) : Prop :=
  ∃ ts v w, pool.Unfolds xs ts v ∧ pool'.Unfolds ys ts w

/-- The nodes have the same name, and their operands unfold to the same trees. -/
def SameNode (pool pool' : Pool) (node node' : Node) : Prop :=
  node.name = node'.name ∧ SameTrees pool pool' node.operands node'.operands

variable {pool pool' more more' : Pool} {x y : Operand} {xs ys : List Operand}

namespace SameTrees

theorem length_eq (h : SameTrees pool pool' xs ys) : xs.length = ys.length := by
  obtain ⟨ts, v, w, hx, hy⟩ := h
  rw [hx.length_eq, hy.length_eq]

theorem mono (h : SameTrees pool pool' xs ys) (left : pool.Extends more)
    (right : pool'.Extends more') : SameTrees more more' xs ys := by
  obtain ⟨ts, v, w, hx, hy⟩ := h
  exact ⟨ts, v, w, hx.mono left, hy.mono right⟩

/-- Operands with the same trees may be put in front of others. -/
theorem cons (h : SameTrees pool pool' [x] [y]) (h' : SameTrees pool pool' xs ys) :
    SameTrees pool pool' (x :: xs) (y :: ys) := by
  obtain ⟨ts, v, w, hx, hy⟩ := h
  obtain ⟨us, v', w', hxs, hys⟩ := h'
  exact ⟨ts ++ us, v ++ v', w ++ w', hx.append hxs, hy.append hys⟩

/-- The first operands have the same tree, and so have all others. -/
theorem uncons (h : SameTrees pool pool' (x :: xs) (y :: ys)) :
    SameTrees pool pool' [x] [y] ∧ SameTrees pool pool' xs ys := by
  obtain ⟨ts, v, w, hx, hy⟩ := h
  obtain ⟨t, us, v₁, v₂, rfl, rfl, first, rest⟩ := hx.exists_of_cons
  obtain ⟨_, _, w₁, w₂, same, rfl, first', rest'⟩ := hy.exists_of_cons
  cases same
  exact ⟨⟨[t], v₁, w₁, first, first'⟩, us, v₂, w₂, rest, rest'⟩

/-- Operands that wait have the same tree if they would without waiting. -/
theorem skip (h : SameTrees pool pool' [x] [y]) : SameTrees pool pool' [.skip x] [.skip y] := by
  obtain ⟨ts, v, w, hx, hy⟩ := h
  obtain ⟨t, rfl⟩ := hx.exists_of_singleton
  exact ⟨[.skip t], v, w, hx.of_skip, hy.of_skip⟩

/-- Braces are around both operands or around none, since operands that are braced already have
braced trees. -/
theorem braced (h : SameTrees pool pool' [x] [y]) :
    SameTrees pool pool' [Parse.braced x] [Parse.braced y] := by
  obtain ⟨ts, v, w, hx, hy⟩ := h
  obtain ⟨t, rfl⟩ := hx.exists_of_singleton
  cases t with
  | literal text =>
      obtain ⟨rfl, -⟩ := hx.eq_of_tree_literal
      obtain ⟨rfl, -⟩ := hy.eq_of_tree_literal
      exact ⟨_, v, w, hx.of_block, hy.of_block⟩
  | node name ts =>
      obtain ⟨i, -, -, rfl, -⟩ := hx.exists_of_tree_node
      obtain ⟨j, -, -, rfl, -⟩ := hy.exists_of_tree_node
      exact ⟨_, v, w, hx.of_block, hy.of_block⟩
  | block t =>
      obtain ⟨x, rfl, -⟩ := hx.exists_of_tree_block
      obtain ⟨y, rfl, -⟩ := hy.exists_of_tree_block
      exact ⟨_, v, w, hx, hy⟩
  | skip t =>
      obtain ⟨x, rfl, -⟩ := hx.exists_of_tree_skip
      obtain ⟨y, rfl, -⟩ := hy.exists_of_tree_skip
      exact ⟨_, v, w, hx.of_block, hy.of_block⟩

theorem refl (h : ∃ ts v, pool.Unfolds xs ts v) : SameTrees pool pool xs xs := by
  obtain ⟨ts, v, unfolds⟩ := h
  exact ⟨ts, v, v, unfolds, unfolds⟩

/-- Operands with a tree lead to nodes of their pool, so both pools accept a node that is made of
them. -/
theorem accepts {name : String} (h : SameTrees pool pool' xs ys) :
    pool.accepts ⟨name, xs⟩ ∧ pool'.accepts ⟨name, ys⟩ := by
  obtain ⟨ts, v, w, hx, hy⟩ := h
  have within {pool : Pool} {xs : List Operand} {v : List Nat} (h : pool.Unfolds xs ts v) :
      ∀ x ∈ xs, x.Within pool :=
    fun x mem i leads => h.lt_size i (h.mem_iff_reaches.mpr ⟨x, mem, .here leads⟩)
  exact ⟨accepts_of_within (within hx), accepts_of_within (within hy)⟩

/-- The operands point at nodes with the same name, or at none.  This is as far as a desugaring
looks. -/
theorem pointee? (h : SameTrees pool pool' [x] [y]) :
    Option.Rel (SameNode pool pool') (pool.pointee? x) (pool'.pointee? y) := by
  obtain ⟨ts, v, w, hx, hy⟩ := h
  obtain ⟨t, rfl⟩ := hx.exists_of_singleton
  cases t with
  | literal text =>
      obtain ⟨rfl, -⟩ := hx.eq_of_tree_literal
      obtain ⟨rfl, -⟩ := hy.eq_of_tree_literal
      exact .none
  | node name ts =>
      obtain ⟨i, node, v, rfl, found, rfl, rfl, inner⟩ := hx.exists_of_tree_node
      obtain ⟨j, node', w, rfl, found', named, rfl, inner'⟩ := hy.exists_of_tree_node
      rw [show pool.pointee? (.node i) = some node from found,
        show pool'.pointee? (.node j) = some node' from found']
      exact .some ⟨named.symm, ts, v, w, inner, inner'⟩
  | block t =>
      obtain ⟨x, rfl, -⟩ := hx.exists_of_tree_block
      obtain ⟨y, rfl, -⟩ := hy.exists_of_tree_block
      exact .none
  | skip t =>
      obtain ⟨x, rfl, -⟩ := hx.exists_of_tree_skip
      obtain ⟨y, rfl, -⟩ := hy.exists_of_tree_skip
      exact .none

end SameTrees

end Pool

namespace Standard

open Parse (Category Phrase Parsed applyOperator)
open Pool (SameTrees SameNode)

variable {pool pool' : Pool} {x y : Operand} {xs ys : List Operand} {name : String}

/-! ### Single desugarings -/

/-- The same node is made of operands with the same trees, or none for the same
reason. -/
def SteadyDesugaring (name : String) (desugar : Desugaring) : Prop :=
  ∀ pool pool' xs ys, SameTrees pool pool' xs ys →
    Matches Eq (SameNode pool pool') (desugar pool ⟨name, xs⟩) (desugar pool' ⟨name, ys⟩)

/-- To let the second operand wait is the same for the same trees. -/
theorem steady_deferSecondAs (word : String) : SteadyDesugaring name (deferSecondAs word) := by
  intro pool pool' xs ys h
  match xs, ys, h.length_eq with
  | [], [], _ => exact rfl
  | [_], [_], _ => exact rfl
  | x :: second :: _, y :: second' :: _, _ =>
      obtain ⟨first, rest⟩ := h.uncons
      exact ⟨rfl, first.cons (rest.uncons.1.skip)⟩

theorem sameNode_conditional {c c' x x' y y' : Operand} (hc : SameTrees pool pool' [c] [c'])
    (hx : SameTrees pool pool' [x] [x']) (hy : SameTrees pool pool' [y] [y']) :
    SameNode pool pool' (conditional c x y) (conditional c' x' y') :=
  ⟨rfl, hc.cons (hx.skip.cons hy.skip)⟩

/-- The spelling with the sign in front does not look at the pool at all. -/
theorem steady_fromPlain : SteadyDesugaring name fromPlain := by
  intro pool pool' xs ys h
  match xs, ys, h.length_eq with
  | [], [], _ => exact rfl
  | [_], [_], _ => exact rfl
  | [_, _], [_, _], _ => exact rfl
  | [c, x, y], [c', x', y'], _ =>
      obtain ⟨hc, rest⟩ := h.uncons
      obtain ⟨hx, hy⟩ := rest.uncons
      exact sameNode_conditional hc hx hy
  | _ :: _ :: _ :: _ :: _, _ :: _ :: _ :: _ :: _, _ => exact rfl

/-- The operands of the same marker, or of none: a marker is recognized by the name of its node
and the number of its operands, and both are part of the tree. -/
theorem marked?_same (marker : String) (h : SameTrees pool pool' [x] [y]) :
    Option.Rel (fun x y => SameTrees pool pool' [x] [y]) (marked? pool marker x)
      (marked? pool' marker y) := by
  have pointees := h.pointee?
  unfold marked?
  generalize pool.pointee? x = node? at pointees
  generalize pool'.pointee? y = node?' at pointees
  cases pointees with
  | none => exact .none
  | @some node node' same =>
      obtain ⟨name, operands⟩ := node
      obtain ⟨name', operands'⟩ := node'
      obtain ⟨rfl, trees⟩ : name = name' ∧ SameTrees pool pool' operands operands' := same
      match operands, operands', trees.length_eq with
      | [], [], _ => exact .none
      | [inner], [inner'], _ =>
          dsimp only
          split
          · exact .some trees
          · exact .none
      | _ :: _ :: _, _ :: _ :: _, _ => exact .none

/-- The spelling in words looks for two markers, which both sides have or lack. -/
theorem steady_fromMarked : SteadyDesugaring name fromMarked := by
  intro pool pool' xs ys h
  match xs, ys, h.length_eq with
  | [], [], _ => exact rfl
  | [_], [_], _ => exact rfl
  | [_, _], [_, _], _ => exact rfl
  | [c, x, y], [c', x', y'], _ =>
      obtain ⟨hc, rest⟩ := h.uncons
      obtain ⟨hx, hy⟩ := rest.uncons
      have first := marked?_same "then" hx
      have second := marked?_same "else" hy
      unfold fromMarked
      dsimp only
      generalize marked? pool "then" x = x? at first
      generalize marked? pool' "then" x' = x?' at first
      cases first with
      | none => exact rfl
      | some hx =>
          dsimp only
          generalize marked? pool "else" y = y? at second
          generalize marked? pool' "else" y' = y?' at second
          cases second with
          | none => exact rfl
          | some hy => exact sameNode_conditional hc hx hy
  | _ :: _ :: _ :: _ :: _, _ :: _ :: _ :: _ :: _, _ => exact rfl

theorem steady_fromJoined : SteadyDesugaring name fromJoined := by
  intro pool pool' xs ys h
  match xs, ys, h.length_eq with
  | [], [], _ => exact rfl
  | [_], [_], _ => exact rfl
  | [joined, y], [joined', y'], _ =>
      obtain ⟨hj, hy⟩ := h.uncons
      have pointees := hj.pointee?
      unfold fromJoined
      dsimp only
      generalize pool.pointee? joined = node? at pointees
      generalize pool'.pointee? joined' = node?' at pointees
      cases pointees with
      | none => exact rfl
      | @some node node' same =>
          obtain ⟨name, operands⟩ := node
          obtain ⟨name', operands'⟩ := node'
          obtain ⟨rfl, trees⟩ : name = name' ∧ SameTrees pool pool' operands operands' := same
          match operands, operands', trees.length_eq with
          | [], [], _ => exact rfl
          | [_], [_], _ => exact rfl
          | [c, x], [c', x'], _ =>
              obtain ⟨hc, hx⟩ := trees.uncons
              dsimp only
              split
              · exact sameNode_conditional hc hx hy
              · exact rfl
          | _ :: _ :: _ :: _, _ :: _ :: _ :: _, _ => exact rfl
  | _ :: _ :: _ :: _, _ :: _ :: _ :: _, _ => exact rfl

/-! ### The library -/

/-- What is registered makes the same of operands with the same trees. -/
def Steady (r : Registration) : Prop :=
  ∀ d, r.definition? = some d → SteadyDesugaring d.signature.name d.nodeFor

/-- An operator without a desugaring makes the node that is written. -/
theorem steady_plain {fixity : Fixity} {body? : Option Body} :
    Steady (.operator name fixity body? none) := by
  intro d hd pool pool' xs ys h
  obtain ⟨body, -, rfl⟩ := Option.map_eq_some_iff.mp hd
  exact ⟨rfl, h⟩

/-- A function is no operator, and there is nothing to compare. -/
theorem steady_function {arity : Nat} {body : Body} : Steady (.function name arity body) := by
  intro d hd pool pool' xs ys h
  cases hd
  exact ⟨rfl, h⟩

/-- An operator with a desugaring is steady if the desugaring is. -/
theorem steady_operator {fixity : Fixity} {body? : Option Body} {desugar : Desugaring}
    (h : SteadyDesugaring name desugar) : Steady (.operator name fixity body? (some desugar)) := by
  intro d hd
  obtain ⟨body, -, rfl⟩ := Option.map_eq_some_iff.mp hd
  exact h

/-- **The standard library makes the same of operands with the same trees.**  A desugaring that
looked at indices, or at nodes that its operands do not lead to, would not be steady, and a
derivation could then be folded in two ways. -/
theorem steady_library : ∀ r ∈ library, Steady r := by
  have truths : ∀ r ∈ truthOperations, Steady r := by
    simp only [truthOperations, List.forall_mem_cons]
    have deferSecond {name : String} : SteadyDesugaring name deferSecond :=
      steady_deferSecondAs name
    exact ⟨steady_plain, steady_plain, steady_plain, steady_plain, steady_operator deferSecond,
      steady_operator deferSecond, steady_operator (steady_deferSecondAs _),
      steady_operator (steady_deferSecondAs _), steady_function, List.forall_mem_nil _⟩
  have conditionals : ∀ r ∈ conditionalOperations, Steady r := by
    simp only [conditionalOperations, List.forall_mem_cons]
    exact ⟨steady_operator steady_fromMarked, steady_plain, steady_plain, steady_plain,
      steady_operator steady_fromJoined, steady_operator steady_fromPlain, steady_plain,
      List.forall_mem_nil _⟩
  have lookups : ∀ r ∈ lookupOperations, Steady r := by
    simp only [lookupOperations, List.forall_mem_cons]
    exact ⟨steady_plain, steady_plain, steady_plain, steady_plain, List.forall_mem_nil _⟩
  have sequences : ∀ r ∈ sequenceFunctions, Steady r := by
    simp only [sequenceFunctions, List.forall_mem_cons]
    exact ⟨steady_function, steady_function, steady_function, List.forall_mem_nil _⟩
  have applications : ∀ r ∈ applicationOperations, Steady r := by
    simp only [applicationOperations, List.forall_mem_cons]
    exact ⟨steady_plain, steady_plain, steady_plain, steady_plain, steady_plain, steady_plain,
      List.forall_mem_nil _⟩
  have traversals : ∀ r ∈ traversalOperations, Steady r := by
    simp only [traversalOperations, List.forall_mem_cons]
    exact ⟨steady_plain, steady_plain, steady_plain, steady_plain, List.forall_mem_nil _⟩
  simp only [library, List.forall_mem_append]
  exact ⟨⟨⟨⟨⟨truths, conditionals⟩, lookups⟩, sequences⟩, applications⟩, traversals⟩

/-- What is found in the standard registry was registered in the library. -/
theorem steady_of_find? {signature : Signature} {d : Definition}
    (found : Registry.standard.find? signature = some d) :
    SteadyDesugaring signature.name d.nodeFor := by
  obtain ⟨r, mem, hd⟩ := Registry.exists_registration build_library (Table.mem_of_find? found)
  rw [← Registry.signature_of_find? found]
  exact steady_library r mem d hd

end Standard

/-! ### Derivations -/

/-- The folds add nodes to their pools and come to the same tree. -/
structure Parse.SameFold (pool pool' : Pool) (p p' : Parse.Parsed) : Prop where
  /-- On the left. -/
  left : pool.Extends p.pool
  /-- On the right. -/
  right : pool'.Extends p'.pool
  /-- The tree. -/
  trees : Pool.SameTrees p.pool p'.pool [p.root] [p'.root]

namespace Parse.SameFold

variable {pool pool' : Pool} {p p' q q' : Parsed} {x x' : Except ParseFault Parsed}

theorem trans (h : SameFold pool pool' p p') (h' : SameFold p.pool p'.pool q q') :
    SameFold pool pool' q q' :=
  ⟨h.left.trans h'.left, h.right.trans h'.right, h'.trees⟩

/-- The folds go on in the same way: each one over the pool that the one before has left. -/
theorem bind {f f' : Parsed → Except ParseFault Parsed} (h : Matches Eq (SameFold pool pool') x x')
    (next : ∀ p p', SameFold pool pool' p p' →
      Matches Eq (SameFold p.pool p'.pool) (f p) (f' p')) :
    Matches Eq (SameFold pool pool') (x >>= f) (x' >>= f') :=
  h.bind fun p p' hp => (next p p' hp).imp fun _ _ => hp.trans

end Parse.SameFold

namespace Standard

open Parse (Category Phrase Parsed SameFold applyOperator)
open Pool (SameTrees)

variable {pool pool' more more' : Pool} {xs ys : List Operand}

/-- **Operators make the same tree of the same trees**, or both are refused with the same fault. -/
theorem apply_same (name : String) (h : SameTrees pool pool' xs ys) :
    Matches Eq (SameFold pool pool') (applyOperator .standard name xs pool)
      (applyOperator .standard name ys pool') := by
  unfold applyOperator
  rw [← h.length_eq]
  cases found : Registry.standard.find? ⟨name, xs.length⟩ with
  | none => exact rfl
  | some d =>
      have nodes := steady_of_find? found pool pool' xs ys h
      dsimp only at nodes ⊢
      cases made : d.nodeFor pool ⟨name, xs⟩ with
      | error reason =>
          obtain ⟨_, made', rfl⟩ := nodes.exists_error made
          rw [made']
          exact rfl
      | ok node =>
          obtain ⟨node', made', named, trees⟩ := nodes.exists_ok made
          rw [made']
          dsimp only
          rw [if_pos trees.accepts.1, if_pos trees.accepts.2]
          obtain ⟨ts, v, w, hx, hy⟩ := trees
          have left := pool.extends_push node
          have right := pool'.extends_push node'
          refine ⟨left, right, [.node node.name ts], pool.size :: v, pool'.size :: w, ?_, ?_⟩
          · exact .of_node (pool.get?_push_size node) (hx.mono left)
          · rw [named]
            exact .of_node (pool'.get?_push_size node') (hy.mono right)

/-- **Derivations are folded to the same tree**, whatever the pool.  So the tree is a matter of
the derivation, and of the tokens that it is derived from. -/
theorem build_same {category : Category} (d : Phrase category) (pool pool' : Pool) :
    Matches Eq (SameFold pool pool') (d.build .standard pool) (d.build .standard pool') := by
  induction d generalizing pool pool' with
  | literal text => exact ⟨.refl pool, .refl pool', _, _, _, .literal .nil, .literal .nil⟩
  | paren inner ih => exact ih pool pool'
  | brace inner ih =>
      refine SameFold.bind (ih pool pool') fun p p' hp => ?_
      exact ⟨.refl p.pool, .refl p'.pool, hp.trees.braced⟩
  | prefix1 name x ih =>
      exact SameFold.bind (ih pool pool') fun p p' hp => apply_same name hp.trees
  | prefix3 name x y z ihx ihy ihz =>
      refine SameFold.bind (ihx pool pool') fun p p' hp => ?_
      refine SameFold.bind (ihy p.pool p'.pool) fun q q' hq => ?_
      refine SameFold.bind (ihz q.pool q'.pool) fun r r' hr => ?_
      have first := hp.trees.mono (hq.left.trans hr.left) (hq.right.trans hr.right)
      have second := hq.trees.mono hr.left hr.right
      exact apply_same name (first.cons (second.cons hr.trees))
  | single x ih => exact ih pool pool'
  | infix2 x name y ihx ihy =>
      refine SameFold.bind (ihx pool pool') fun p p' hp => ?_
      refine SameFold.bind (ihy p.pool p'.pool) fun q q' hq => ?_
      have first := hp.trees.mono hq.left hq.right
      exact apply_same name (first.cons hq.trees)

end Standard

end RuleEngine
