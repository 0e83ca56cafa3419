import Mathlib.Data.List.Nodup
import Mathlib.Data.List.Perm.Subperm
import RuleEngine.Proofs.Parse.Fold

/-!
# Unfolding operands

An operand leads to nodes, whose operands lead to further nodes.  What is found in
this way is a tree, and pools in which nodes have different indices, or which have
further nodes, may unfold to the same tree.

Unfolding also says which nodes are visited, and how often.  If none is visited
twice, then each of them but the first is referenced by one node only.

It is a relation, since a pool may have cycles or lack nodes; pools that come from the
parser do not, and there all operands unfold.  Lists of operands are unfolded together,
so that a single induction serves a node with all its operands.  What a tree does not
show is where the nodes are: that is left to the visit.

## Main definitions

* `Tree` - an operand with everything that it leads to.
* `Tree.literals` - the literals of a tree from left to right.
* `Pool.Unfolds` - operands of a pool unfold to trees, on a visit of these nodes.
* `Pool.Reaches` - an operand leads to a node, directly or through others.

## Main statements

* `Unfolds.unique` - there is only one way to unfold.
* `Acyclic.exists_unfolds` - there is one if nodes refer to earlier nodes only.
* `Unfolds.mem_iff_reaches` - the visited nodes are those that are reached.
* `Unfolds.count_references` - in a visit without repetitions every node but the
  first is referenced exactly once.
-/

namespace RuleEngine

/-- An operand with everything that it leads to. -/
inductive Tree
  /-- A literal. -/
  | literal (text : String)
  /-- An operation applied to operands. -/
  | node (name : String) (operands : List Tree)
  /-- A body in braces. -/
  | block (inner : Tree)
  /-- An operand that waits. -/
  | skip (inner : Tree)

namespace Tree

mutual

/-- The literals from left to right. -/
def literals : Tree → List String
  | literal text => [text]
  | node _ operands => literalsAll operands
  | block inner => inner.literals
  | skip inner => inner.literals

/-- The literals of several trees. -/
def literalsAll : List Tree → List String
  | [] => []
  | t :: rest => t.literals ++ literalsAll rest

end

end Tree

namespace Pool

/-- Operands unfold to trees.  The last argument lists the nodes on the way, each
before its operands. -/
inductive Unfolds (pool : Pool) : List Operand → List Tree → List Nat → Prop
  | nil : Unfolds pool [] [] []
  | literal {text xs ts v} : Unfolds pool xs ts v →
      Unfolds pool (.literal text :: xs) (.literal text :: ts) v
  | node {i node operands xs ts v w} : pool.get? i = some node →
      Unfolds pool node.operands operands v → Unfolds pool xs ts w →
      Unfolds pool (.node i :: xs) (.node node.name operands :: ts) (i :: v ++ w)
  | block {x t xs ts v w} : Unfolds pool [x] [t] v → Unfolds pool xs ts w →
      Unfolds pool (.block x :: xs) (.block t :: ts) (v ++ w)
  | skip {x t xs ts v w} : Unfolds pool [x] [t] v → Unfolds pool xs ts w →
      Unfolds pool (.skip x :: xs) (.skip t :: ts) (v ++ w)

/-- An operand leads to a node, directly or through others. -/
inductive Reaches (pool : Pool) : Operand → Nat → Prop
  | here {x i} : x.reference? = some i → Reaches pool x i
  | deeper {x i node y j} : x.reference? = some i → pool.get? i = some node →
      y ∈ node.operands → Reaches pool y j → Reaches pool x j

/-- The nodes that the operands of a node lead to. -/
def referencesAt (pool : Pool) (index : Nat) : List Nat :=
  ((pool.get? index).map Node.references).getD []

/-- The references at an index are those of the node that is found there. -/
theorem referencesAt_eq {pool : Pool} {i : Nat} {node : Node} (h : pool.get? i = some node) :
    pool.referencesAt i = node.references := by
  rw [referencesAt, h]
  rfl

variable {pool pool' : Pool} {x y : Operand} {t : Tree} {xs ys : List Operand} {ts us : List Tree}
variable {v w : List Nat} {i j : Nat} {node : Node}

theorem not_reaches_literal {text : String} : ¬ pool.Reaches (.literal text) j := by
  rintro (leads | ⟨leads, -, -, -⟩) <;> cases leads

/-- A node leads to itself, and to whatever its operands lead to. -/
theorem reaches_node (found : pool.get? i = some node) :
    pool.Reaches (.node i) j ↔ j = i ∨ ∃ y ∈ node.operands, pool.Reaches y j := by
  constructor
  · rintro (leads | ⟨leads, found', mem, further⟩)
    · exact .inl (Option.some.inj leads).symm
    · cases leads
      obtain rfl := Option.some.inj (found.symm.trans found')
      exact .inr ⟨_, mem, further⟩
  · rintro (rfl | ⟨y, mem, further⟩)
    · exact .here rfl
    · exact .deeper rfl found mem further

/-- Braces and deferrals do not matter to what an operand leads to.  Only the node inside does. -/
theorem Reaches.of_reference? (h : pool.Reaches x j) (same : x.reference? = y.reference?) :
    pool.Reaches y j := by
  rcases h with leads | ⟨leads, found, mem, further⟩
  · exact .here (same ▸ leads)
  · exact .deeper (same ▸ leads) found mem further

theorem reaches_iff_of_reference? (same : x.reference? = y.reference?) :
    pool.Reaches x j ↔ pool.Reaches y j :=
  ⟨fun h => h.of_reference? same, fun h => h.of_reference? same.symm⟩

namespace Unfolds

/-- Operands that unfold side by side are visited one after the other. -/
theorem append (h : pool.Unfolds xs ts v) (h' : pool.Unfolds ys us w) :
    pool.Unfolds (xs ++ ys) (ts ++ us) (v ++ w) := by
  induction h with
  | nil => exact h'
  | literal _ ih => exact .literal ih
  | node found inner _ _ ih =>
      rw [List.cons_append, List.cons_append, List.append_assoc]
      exact .node found inner ih
  | block inner _ _ ih =>
      rw [List.cons_append, List.cons_append, List.append_assoc]
      exact .block inner ih
  | skip inner _ _ ih =>
      rw [List.cons_append, List.cons_append, List.append_assoc]
      exact .skip inner ih

theorem cons (h : pool.Unfolds [x] [t] v) (h' : pool.Unfolds xs ts w) :
    pool.Unfolds (x :: xs) (t :: ts) (v ++ w) :=
  h.append h'

/-- The first operand unfolds apart from the others.  Trees and visits are taken apart in this
way. -/
theorem exists_of_cons (h : pool.Unfolds (x :: xs) ts v) :
    ∃ t us v' w, ts = t :: us ∧ v = v' ++ w ∧ pool.Unfolds [x] [t] v' ∧ pool.Unfolds xs us w := by
  cases h with
  | literal rest => exact ⟨_, _, [], _, rfl, rfl, .literal .nil, rest⟩
  | node found inner rest =>
      refine ⟨_, _, _, _, rfl, rfl, ?_, rest⟩
      simpa using Unfolds.node found inner .nil
  | block inner rest =>
      refine ⟨_, _, _, _, rfl, rfl, ?_, rest⟩
      simpa using Unfolds.block inner .nil
  | skip inner rest =>
      refine ⟨_, _, _, _, rfl, rfl, ?_, rest⟩
      simpa using Unfolds.skip inner .nil

theorem exists_of_pair (h : pool.Unfolds [x, y] ts v) :
    ∃ t u v' w, ts = [t, u] ∧ v = v' ++ w ∧ pool.Unfolds [x] [t] v' ∧ pool.Unfolds [y] [u] w := by
  obtain ⟨t, us, v', w, rfl, rfl, hx, hy⟩ := h.exists_of_cons
  obtain ⟨u, _, w, _, rfl, rfl, hy, rest⟩ := hy.exists_of_cons
  cases rest
  exact ⟨t, u, v', w, rfl, by simp, hx, by simpa using hy⟩

theorem exists_of_triple {c : Operand} (h : pool.Unfolds [c, x, y] ts v) :
    ∃ r s t u v' w, ts = [r, s, t] ∧ v = u ++ (v' ++ w) ∧ pool.Unfolds [c] [r] u ∧
      pool.Unfolds [x] [s] v' ∧ pool.Unfolds [y] [t] w := by
  obtain ⟨r, _, u, _, rfl, rfl, hc, rest⟩ := h.exists_of_cons
  obtain ⟨s, t, v', w, rfl, rfl, hx, hy⟩ := rest.exists_of_pair
  exact ⟨r, s, t, u, v', w, rfl, rfl, hc, hx, hy⟩

theorem exists_of_singleton (h : pool.Unfolds [x] ts v) : ∃ t, ts = [t] := by
  obtain ⟨t, _, _, _, rfl, -, -, rest⟩ := h.exists_of_cons
  cases rest
  exact ⟨t, rfl⟩

/-- A node unfolds to its name and the trees of its operands, and it is visited before they are. -/
theorem of_node (found : pool.get? i = some node) (h : pool.Unfolds node.operands ts v) :
    pool.Unfolds [.node i] [.node node.name ts] (i :: v) := by
  simpa using Unfolds.node found h .nil

/-- Braces are kept in the tree, but they are no node, and so they are not visited. -/
theorem of_block (h : pool.Unfolds [x] [t] v) : pool.Unfolds [.block x] [.block t] v := by
  simpa using Unfolds.block h .nil

/-- So are deferrals. -/
theorem of_skip (h : pool.Unfolds [x] [t] v) : pool.Unfolds [.skip x] [.skip t] v := by
  simpa using Unfolds.skip h .nil

/-- Conversely, the tree of a node shows its name and the trees of its operands, and the visit
begins with the node. -/
theorem exists_of_node (found : pool.get? i = some node) (h : pool.Unfolds [.node i] [t] v) :
    ∃ ts w, t = .node node.name ts ∧ v = i :: w ∧ pool.Unfolds node.operands ts w := by
  cases h with
  | node found' inner rest =>
      cases rest
      obtain rfl : node = _ := Option.some.inj (found.symm.trans found')
      exact ⟨_, _, rfl, by simp, inner⟩

/-! What an operand is like can be read off its tree. -/

theorem exists_of_tree_cons (h : pool.Unfolds xs (t :: ts) v) :
    ∃ x ys v' w, xs = x :: ys ∧ v = v' ++ w ∧ pool.Unfolds [x] [t] v' ∧ pool.Unfolds ys ts w := by
  match xs with
  | [] => cases h
  | x :: ys =>
      obtain ⟨_, _, v', w, same, rfl, first, rest⟩ := h.exists_of_cons
      cases same
      exact ⟨x, ys, v', w, rfl, rfl, first, rest⟩

/-- A tree that is a literal comes from that literal, and nothing is visited. -/
theorem eq_of_tree_literal {text : String} (h : pool.Unfolds [x] [.literal text] v) :
    x = .literal text ∧ v = [] := by
  cases h with
  | literal rest =>
      cases rest
      exact ⟨rfl, rfl⟩

/-- A tree with a name comes from a node of that name, which may have any index. -/
theorem exists_of_tree_node {name : String} (h : pool.Unfolds [x] [.node name ts] v) :
    ∃ i node w, x = .node i ∧ pool.get? i = some node ∧ node.name = name ∧ v = i :: w ∧
      pool.Unfolds node.operands ts w := by
  cases x with
  | node i =>
      generalize same : [Tree.node name ts] = us at h
      cases h with
      | node found inner rest =>
          cases same
          cases rest
          exact ⟨i, _, _, rfl, found, rfl, by simp, inner⟩
  | literal text => cases h
  | block x => cases h
  | skip x => cases h

theorem exists_of_tree_block (h : pool.Unfolds [x] [.block t] v) :
    ∃ y, x = .block y ∧ pool.Unfolds [y] [t] v := by
  cases h with
  | block inner rest =>
      cases rest
      exact ⟨_, rfl, by simpa using inner⟩

theorem exists_of_tree_skip (h : pool.Unfolds [x] [.skip t] v) :
    ∃ y, x = .skip y ∧ pool.Unfolds [y] [t] v := by
  cases h with
  | skip inner rest =>
      cases rest
      exact ⟨_, rfl, by simpa using inner⟩

/-- **There is only one way to unfold.**  A pool has at most one node under an index, so neither
the tree nor the visit is a choice. -/
theorem unique (h : pool.Unfolds xs ts v) (h' : pool.Unfolds xs us w) : ts = us ∧ v = w := by
  induction h generalizing us w with
  | nil =>
      cases h'
      exact ⟨rfl, rfl⟩
  | literal _ ih =>
      cases h' with
      | literal rest =>
          obtain ⟨rfl, rfl⟩ := ih rest
          exact ⟨rfl, rfl⟩
  | node found _ _ ihInner ih =>
      cases h' with
      | node found' inner rest =>
          obtain rfl := Option.some.inj (found.symm.trans found')
          obtain ⟨rfl, rfl⟩ := ihInner inner
          obtain ⟨rfl, rfl⟩ := ih rest
          exact ⟨rfl, rfl⟩
  | block _ _ ihInner ih =>
      cases h' with
      | block inner rest =>
          obtain ⟨same, rfl⟩ := ihInner inner
          cases same
          obtain ⟨rfl, rfl⟩ := ih rest
          exact ⟨rfl, rfl⟩
  | skip _ _ ihInner ih =>
      cases h' with
      | skip inner rest =>
          obtain ⟨same, rfl⟩ := ihInner inner
          cases same
          obtain ⟨rfl, rfl⟩ := ih rest
          exact ⟨rfl, rfl⟩

/-- Operands unfold alike in a larger pool, since their nodes are there as well. -/
theorem mono (more : pool.Extends pool') (h : pool.Unfolds xs ts v) : pool'.Unfolds xs ts v := by
  induction h with
  | nil => exact .nil
  | literal _ ih => exact .literal ih
  | node found _ _ ihInner ih => exact .node (more _ _ found) ihInner ih
  | block _ _ ihInner ih => exact .block ihInner ih
  | skip _ _ ihInner ih => exact .skip ihInner ih

theorem lt_size (h : pool.Unfolds xs ts v) : ∀ i ∈ v, i < pool.size := by
  induction h with
  | nil => exact nofun
  | literal _ ih => exact ih
  | node found _ _ ihInner ih =>
      intro i mem
      simp only [List.cons_append, List.mem_cons, List.mem_append] at mem
      rcases mem with rfl | mem | mem
      · exact lt_of_get? found
      · exact ihInner i mem
      · exact ih i mem
  | block _ _ ihInner ih | skip _ _ ihInner ih =>
      intro i mem
      rcases List.mem_append.mp mem with mem | mem
      · exact ihInner i mem
      · exact ih i mem

theorem length_eq (h : pool.Unfolds xs ts v) : xs.length = ts.length := by
  induction h with
  | nil => rfl
  | literal _ ih | node _ _ _ _ ih | block _ _ _ ih | skip _ _ _ ih =>
      rw [List.length_cons, List.length_cons, ih]

/-- A visit without repetitions has at most as many nodes as there are in the pool. -/
theorem length_le_size (h : pool.Unfolds xs ts v) (once : v.Nodup) : v.length ≤ pool.size := by
  have subset : v ⊆ List.range pool.size := fun i mem => List.mem_range.mpr (h.lt_size i mem)
  simpa using (List.subperm_of_subset once subset).length_le

/-- Operands that unfold one by one unfold together. -/
theorem exists_of_forall (each : ∀ x ∈ xs, ∃ t v, pool.Unfolds [x] [t] v) :
    ∃ ts v, pool.Unfolds xs ts v := by
  induction xs with
  | nil => exact ⟨[], [], .nil⟩
  | cons x xs ih =>
      obtain ⟨t, v, first⟩ := each x List.mem_cons_self
      obtain ⟨ts, w, rest⟩ := ih fun y hy => each y (List.mem_cons_of_mem x hy)
      exact ⟨t :: ts, v ++ w, first.cons rest⟩

/-- **The visited nodes are those that are reached.**  So a visit, which is a list with an order
and with repetitions, knows reachability, which has neither. -/
theorem mem_iff_reaches (h : pool.Unfolds xs ts v) : j ∈ v ↔ ∃ x ∈ xs, pool.Reaches x j := by
  induction h with
  | nil => simp
  | literal _ ih =>
      rw [ih, List.exists_mem_cons_iff]
      exact (or_iff_right not_reaches_literal).symm
  | node found _ _ ihInner ih =>
      rw [List.cons_append, List.mem_cons, List.mem_append, ihInner, ih, List.exists_mem_cons_iff,
        reaches_node found, or_assoc]
  | @block x _ _ _ _ _ _ _ ihInner ih =>
      have same : pool.Reaches (.block x) j ↔ pool.Reaches x j := reaches_iff_of_reference? rfl
      simp [ihInner, ih, same]
  | @skip x _ _ _ _ _ _ _ ihInner ih =>
      have same : pool.Reaches (.skip x) j ↔ pool.Reaches x j := reaches_iff_of_reference? rfl
      simp [ihInner, ih, same]

/-- A node is visited once for each operand that leads to it, of those that the visit starts from
and of the visited nodes.  This is the count behind linearity. -/
theorem perm_references (h : pool.Unfolds xs ts v) :
    v.Perm (xs.filterMap Operand.reference? ++ v.flatMap pool.referencesAt) := by
  rw [List.perm_iff_count]
  intro j
  induction h with
  | nil => rfl
  | literal _ ih =>
      rw [List.filterMap_cons_none rfl]
      exact ih
  | @node i node operands xs ts v w found _ _ ihInner ih =>
      have leads := referencesAt_eq found
      simp only [Node.references, List.count_append] at leads ihInner ih
      simp [Operand.reference?, List.count_cons, leads]
      omega
  | @block x t xs ts v w _ _ ihInner ih =>
      cases leads : x.reference? <;>
        simp_all [Operand.reference?, List.count_cons] <;> omega
  | @skip x t xs ts v w _ _ ihInner ih =>
      cases leads : x.reference? <;>
        simp_all [Operand.reference?, List.count_cons] <;> omega

/-- **Every node but the first is referenced exactly once** in a visit without repetitions.  One
that was referenced twice would be visited twice, by the count above. -/
theorem count_references (h : pool.Unfolds [x] [t] v) (once : v.Nodup) (mem : j ∈ v)
    (below : x.reference? ≠ some j) : (v.flatMap pool.referencesAt).count j = 1 := by
  have visits := h.perm_references.count_eq j
  rw [List.count_eq_one_of_mem once mem, List.count_append] at visits
  have first : ([x].filterMap Operand.reference?).count j = 0 := by
    rw [List.count_eq_zero, List.mem_filterMap]
    rintro ⟨y, hy, leads⟩
    obtain rfl := List.mem_singleton.mp hy
    exact below leads
  omega

end Unfolds

/-- **If nodes refer to earlier nodes only, all operands unfold.**  The induction is on the index;
nothing else would keep an unfolding from going around in circles. -/
theorem Acyclic.exists_unfolds (acyclic : pool.Acyclic) (within : x.Within pool) :
    ∃ t v, pool.Unfolds [x] [t] v := by
  -- The induction is on the first number that is not referred to.
  suffices below : ∀ bound ≤ pool.size, ∀ y : Operand,
      (∀ i, y.reference? = some i → i < bound) → ∃ t v, pool.Unfolds [y] [t] v from
    below pool.size (Nat.le_refl _) x within
  intro bound
  induction bound using Nat.strongRecOn with
  | ind bound earlier =>
      intro bounded y leads
      induction y with
      | literal text => exact ⟨_, _, .literal .nil⟩
      | block y ih =>
          obtain ⟨t, v, inner⟩ := ih leads
          exact ⟨_, _, .of_block inner⟩
      | skip y ih =>
          obtain ⟨t, v, inner⟩ := ih leads
          exact ⟨_, _, .of_skip inner⟩
      | node i =>
          have less : i < bound := leads i rfl
          have inside : i < pool.size := Nat.lt_of_lt_of_le less bounded
          cases found : pool.get? i with
          | none => exact absurd (get?_eq_none_iff.mp found) (Nat.not_le_of_lt inside)
          | some node =>
              have each : ∀ z ∈ node.operands, ∃ t v, pool.Unfolds [z] [t] v := by
                intro z hz
                refine earlier i less (Nat.le_of_lt inside) z fun j leads => ?_
                exact acyclic i node found j (List.mem_filterMap.mpr ⟨z, hz, leads⟩)
              obtain ⟨ts, v, operands⟩ := Unfolds.exists_of_forall each
              exact ⟨_, _, .of_node found operands⟩

end Pool

end RuleEngine
