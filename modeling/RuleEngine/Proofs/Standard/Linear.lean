import RuleEngine.Proofs.Operation.Unfold
import RuleEngine.Proofs.Parse.Reachable
import RuleEngine.Proofs.Standard.Desugaring

/-!
# No operand is lost, repeated or moved

The conditionals take their operands out of the nodes of their markers.  The
markers stay in the pool and go on referring to these operands, so there are
operands that several nodes refer to.  But the conditional does not refer to the
markers, and what cannot be reached any more does not count: from the root of an
expression, every literal of the text is reached in its order, and every node is
referenced once.

The fold of a derivation adds its nodes at the end of the pool.  What is visited
from the operand of a part is therefore among the nodes of that part, and different
parts have different nodes.  Each of these nodes is visited, or it is a marker and
a visited conditional has its operands.

## Main definitions

* `Token.literal?` - the literals among tokens.
* `Pool.Superseded` - a marker whose operands a conditional took.
* `Standard.Visit` - operands unfold with no node visited twice, and all other
  nodes are superseded.

## Main statements

* `Visit.push_made` - the node of an operator is visited together with what its
  operands lead to, without the markers.
* `exists_visit_of_build` - the fold of any derivation is visited in this way.
* `parse_linear` - so is everything that is parsed.
-/

namespace RuleEngine

/-- The text of a literal, if the token is one. -/
def Token.literal? : Token → Option String
  | literal text => some text
  | operator _ _ => none
  | bracket _ => none

namespace Parse.Phrase

/-! ### The literals of a derivation -/

variable {x y : Phrase .expression} {z : Phrase .atom} {name : String}

@[simp] theorem literals_paren :
    (paren x).tokens.filterMap Token.literal? = x.tokens.filterMap Token.literal? := by
  simp [tokens, List.filterMap_cons, Token.literal?]

@[simp] theorem literals_brace :
    (brace x).tokens.filterMap Token.literal? = x.tokens.filterMap Token.literal? := by
  simp [tokens, List.filterMap_cons, Token.literal?]

@[simp] theorem literals_prefix1 :
    (prefix1 name z).tokens.filterMap Token.literal? = z.tokens.filterMap Token.literal? := by
  simp [tokens, List.filterMap_cons, Token.literal?]

@[simp] theorem literals_prefix3 :
    (prefix3 name x y z).tokens.filterMap Token.literal? =
      x.tokens.filterMap Token.literal? ++ (y.tokens.filterMap Token.literal? ++
        z.tokens.filterMap Token.literal?) := by
  simp [tokens, List.filterMap_cons, Token.literal?]

@[simp] theorem literals_infix2 :
    (infix2 x name z).tokens.filterMap Token.literal? =
      x.tokens.filterMap Token.literal? ++ z.tokens.filterMap Token.literal? := by
  simp [tokens, List.filterMap_cons, Token.literal?]

end Parse.Phrase

/-- The node with this index is a marker, and a conditional refers to its operands, as
they are or waiting. -/
def Pool.Superseded (pool : Pool) (node : Node) (index : Nat) : Prop :=
  ∃ marker, pool.get? index = some marker ∧ marker.name ∈ ["then", "else", "?"] ∧
    node.name = "if" ∧ ∀ x ∈ marker.operands, x ∈ node.operands ∨ .skip x ∈ node.operands

/-- A marker that is superseded stays so, since the conditional that took its operands stays. -/
theorem Pool.Superseded.mono {pool pool' : Pool} {node : Node} {i : Nat}
    (h : pool.Superseded node i) (more : pool.Extends pool') : pool'.Superseded node i := by
  obtain ⟨marker, found, rest⟩ := h
  exact ⟨marker, more i marker found, rest⟩

namespace Standard

open Parse (Category Phrase Parsed applyOperator braced)

/-! ### Visits -/

/-- Operands of a pool are unfolded by visiting some of its nodes from `first` on,
each of them once.  The others from there on are superseded by visited ones. -/
structure Visit (first : Nat) (pool : Pool) (xs : List Operand) (ts : List Tree)
    (visited : List Nat) : Prop where
  /-- What is visited. -/
  unfolds : pool.Unfolds xs ts visited
  /-- No node is visited twice. -/
  once : visited.Nodup
  /-- No earlier node is visited. -/
  le : ∀ i ∈ visited, first ≤ i
  /-- The other nodes are superseded. -/
  rest : ∀ i, first ≤ i → i < pool.size → i ∉ visited →
    ∃ j ∈ visited, ∃ node, pool.get? j = some node ∧ pool.Superseded node i

namespace Visit

variable {first : Nat} {pool pool' : Pool} {xs ys : List Operand} {ts us : List Tree}
variable {v w : List Nat} {name : String} {node : Node}

/-- Without operands there is no node to visit. -/
theorem nil (pool : Pool) : Visit pool.size pool [] [] [] where
  unfolds := .nil
  once := List.nodup_nil
  le := nofun
  rest := fun _ start before => absurd before (Nat.not_lt_of_le start)

/-- A literal is no node either, but it counts among the literals of the text. -/
theorem literal (pool : Pool) (text : String) :
    Visit pool.size pool [.literal text] [.literal text] [] where
  unfolds := .literal .nil
  once := List.nodup_nil
  le := nofun
  rest := fun _ start before => absurd before (Nat.not_lt_of_le start)

/-- Parts that were folded one after the other have different nodes, as each begins where the pool
of the one before has ended.  So the visits put together have no repetitions. -/
theorem append (h : Visit first pool xs ts v) (h' : Visit pool.size pool' ys us w)
    (more : pool.Extends pool') (start : first ≤ pool.size) :
    Visit first pool' (xs ++ ys) (ts ++ us) (v ++ w) where
  unfolds := (h.unfolds.mono more).append h'.unfolds
  once := by
    refine List.nodup_append.mpr ⟨h.once, h'.once, fun i mem j mem' => ?_⟩
    exact Nat.ne_of_lt (Nat.lt_of_lt_of_le (h.unfolds.lt_size i mem) (h'.le j mem'))
  le := by
    intro i mem
    rcases List.mem_append.mp mem with mem | mem
    · exact h.le i mem
    · exact Nat.le_trans start (h'.le i mem)
  rest := by
    intro i start before missed
    rw [List.mem_append, not_or] at missed
    rcases Nat.lt_or_ge i pool.size with earlier | later
    · obtain ⟨j, mem, node, found, superseded⟩ := h.rest i start earlier missed.1
      exact ⟨j, List.mem_append_left _ mem, node, more j node found, superseded.mono more⟩
    · obtain ⟨j, mem, found⟩ := h'.rest i later before missed.2
      exact ⟨j, List.mem_append_right _ mem, found⟩

/-- A new node is visited before its operands.  It may give up markers that it supersedes, and
then it has the operands of these instead. -/
theorem push (h : Visit first pool xs ts v) (start : first ≤ pool.size)
    (unfolds : pool.Unfolds node.operands us w) (fewer : w.Sublist v)
    (dropped : ∀ i ∈ v, i ∉ w → pool.Superseded node i) :
    Visit first (pool.push node) [.node pool.size] [.node node.name us] (pool.size :: w) := by
  have more := pool.extends_push node
  refine ⟨.of_node (pool.get?_push_size node) (unfolds.mono more), ?_, ?_, ?_⟩
  · refine List.nodup_cons.mpr ⟨fun mem => ?_, h.once.sublist fewer⟩
    exact Nat.lt_irrefl _ (unfolds.lt_size _ mem)
  · intro i mem
    rcases List.mem_cons.mp mem with rfl | mem
    · exact start
    · exact h.le i (fewer.subset mem)
  · intro i later before missed
    rw [List.mem_cons, not_or] at missed
    rw [Pool.size_push] at before
    by_cases visited : i ∈ v
    · exact ⟨pool.size, List.mem_cons_self, node, pool.get?_push_size node,
        (dropped i visited missed.2).mono more⟩
    · obtain ⟨j, mem, other, found, superseded⟩ := h.rest i later (by omega) visited
      have kept : j ∈ w := by
        -- What supersedes markers is a conditional, and that is never given up.
        by_contra gone
        obtain ⟨marker, found', named, -⟩ := dropped j mem gone
        obtain ⟨-, -, -, conditional, -⟩ := superseded
        obtain rfl := Option.some.inj (found.symm.trans found')
        rw [conditional] at named
        simp at named
      exact ⟨j, List.mem_cons_of_mem _ kept, other, more j other found, superseded.mono more⟩

/-- **Operators keep the literals of their operands and visit each node once.**  There is one case
for each shape of a node; for conditionals the markers are left out of the visit. -/
theorem push_made (h : Visit first pool xs ts v) (start : first ≤ pool.size)
    (made : Made pool name xs node) :
    ∃ t w, Visit first (pool.push node) [.node pool.size] [t] w ∧
      t.literals = Tree.literalsAll ts := by
  cases made with
  | plain => exact ⟨_, _, h.push start h.unfolds (.refl _) fun _ mem gone => absurd mem gone, rfl⟩
  | deferred standard =>
      obtain ⟨t, u, v', w, rfl, rfl, hx, hy⟩ := h.unfolds.exists_of_pair
      exact ⟨_, _, h.push start (hx.cons hy.of_skip) (.refl _) fun _ mem gone => absurd mem gone,
        rfl⟩
  | front =>
      obtain ⟨r, s, t, u, v', w, rfl, rfl, hc, hx, hy⟩ := h.unfolds.exists_of_triple
      exact ⟨_, _, h.push start (hc.cons (hx.of_skip.cons hy.of_skip)) (.refl _)
        fun _ mem gone => absurd mem gone, rfl⟩
  -- The new node has the operands of both markers, which are visited no more.
  | @marked c x y i j hi hj =>
      obtain ⟨r, s, t, u, v', w, rfl, rfl, hc, hx, hy⟩ := h.unfolds.exists_of_triple
      obtain ⟨_, v, rfl, rfl, innerX⟩ := hx.exists_of_node hi
      obtain ⟨s, rfl⟩ := innerX.exists_of_singleton
      obtain ⟨_, w, rfl, rfl, innerY⟩ := hy.exists_of_node hj
      obtain ⟨t, rfl⟩ := innerY.exists_of_singleton
      have fewer : (u ++ (v ++ w)).Sublist (u ++ (i :: v ++ (j :: w))) :=
        (List.Sublist.refl u).append
          ((List.sublist_cons_self i v).append (List.sublist_cons_self j w))
      refine ⟨_, _, h.push start (hc.cons (innerX.of_skip.cons innerY.of_skip)) fewer ?_, ?_⟩
      · intro k mem gone
        have marker : k = i ∨ k = j := by grind
        rcases marker with rfl | rfl
        · exact ⟨_, hi, by simp, rfl, by simp [conditional]⟩
        · exact ⟨_, hj, by simp, rfl, by simp [conditional]⟩
      · simp [Tree.literals, Tree.literalsAll]
  -- The only marker has the condition as well.
  | @joined c x y i hi =>
      obtain ⟨s, t, v', w, rfl, rfl, hx, hy⟩ := h.unfolds.exists_of_pair
      obtain ⟨_, v, rfl, rfl, inner⟩ := hx.exists_of_node hi
      obtain ⟨r, s, u, v, rfl, rfl, hc, hx⟩ := inner.exists_of_pair
      have fewer : (u ++ (v ++ w)).Sublist (i :: (u ++ v) ++ w) := by
        rw [← List.append_assoc]
        exact (List.sublist_cons_self i (u ++ v)).append (.refl w)
      refine ⟨_, _, h.push start (hc.cons (hx.of_skip.cons hy.of_skip)) fewer ?_, ?_⟩
      · intro k mem gone
        obtain rfl : k = i := by grind
        exact ⟨_, hi, by simp, rfl, by simp [conditional]⟩
      · simp [Tree.literals, Tree.literalsAll]

end Visit

/-! ### Derivations -/

variable {first : Nat} {pool : Pool} {category : Category} {name : String}

/-- So does an operator that is applied, whatever desugaring it has. -/
theorem Visit.apply {operands : List Operand} {ts : List Tree} {v : List Nat} {parsed : Parsed}
    (h : Visit first pool operands ts v) (start : first ≤ pool.size)
    (applied : applyOperator .standard name operands pool = .ok parsed) :
    ∃ t w, Visit first parsed.pool [parsed.root] [t] w ∧ t.literals = Tree.literalsAll ts := by
  obtain ⟨node, made, -, rfl⟩ := made_of_applyOperator applied
  exact h.push_made start made

theorem Visit.braced {x : Operand} {t : Tree} {v : List Nat} (h : Visit first pool [x] [t] v) :
    ∃ u, Visit first pool [braced x] [u] v ∧ u.literals = t.literals := by
  cases x with
  | block inner => exact ⟨t, h, rfl⟩
  | literal text => exact ⟨.block t, ⟨h.unfolds.of_block, h.once, h.le, h.rest⟩, rfl⟩
  | node i => exact ⟨.block t, ⟨h.unfolds.of_block, h.once, h.le, h.rest⟩, rfl⟩
  | skip inner => exact ⟨.block t, ⟨h.unfolds.of_block, h.once, h.le, h.rest⟩, rfl⟩

/-- **The fold of a derivation keeps its literals and visits each node once.**  The induction is
on the derivation, and each part begins with the pool that the part before has left. -/
theorem exists_visit_of_build (d : Phrase category) {parsed : Parsed}
    (built : d.build .standard pool = .ok parsed) :
    ∃ t v, Visit pool.size parsed.pool [parsed.root] [t] v ∧
      t.literals = d.tokens.filterMap Token.literal? := by
  induction d generalizing pool parsed with
  | literal text =>
      cases built
      exact ⟨_, [], .literal pool text, rfl⟩
  | paren inner ih =>
      obtain ⟨t, v, visit, same⟩ := ih built
      refine ⟨t, v, visit, ?_⟩
      simpa using same
  | brace inner ih =>
      obtain ⟨p, hp, built⟩ := exists_of_bind_eq_ok built
      cases built
      obtain ⟨t, v, visit, same⟩ := ih hp
      obtain ⟨u, visit, kept⟩ := visit.braced
      refine ⟨u, v, visit, ?_⟩
      simp [kept, same]
  | prefix1 name x ih =>
      obtain ⟨p, hp, built⟩ := exists_of_bind_eq_ok built
      obtain ⟨t, v, visit, texts⟩ := ih hp
      have start := Pool.size_le_of_extends (Phrase.extends_of_build hp)
      obtain ⟨u, w, visit, kept⟩ := visit.apply start built
      refine ⟨u, w, visit, ?_⟩
      rw [kept]
      simp [Tree.literalsAll, texts]
  | prefix3 name x y z ihx ihy ihz =>
      obtain ⟨p, hp, built⟩ := exists_of_bind_eq_ok built
      obtain ⟨q, hq, built⟩ := exists_of_bind_eq_ok built
      obtain ⟨r, hr, built⟩ := exists_of_bind_eq_ok built
      obtain ⟨_, _, visitX, textsX⟩ := ihx hp
      obtain ⟨_, _, visitY, textsY⟩ := ihy hq
      obtain ⟨_, _, visitZ, textsZ⟩ := ihz hr
      have startP := Pool.size_le_of_extends (Phrase.extends_of_build hp)
      have startQ := Pool.size_le_of_extends (Phrase.extends_of_build hq)
      have startR := Pool.size_le_of_extends (Phrase.extends_of_build hr)
      -- Each operand was folded over the pool that the one before has left.
      have operands := visitX.append (visitY.append visitZ (Phrase.extends_of_build hr) startQ)
        ((Phrase.extends_of_build hq).trans (Phrase.extends_of_build hr)) startP
      have start := Nat.le_trans startP (Nat.le_trans startQ startR)
      obtain ⟨u, w, visit, kept⟩ := operands.apply start built
      refine ⟨u, w, visit, ?_⟩
      rw [kept]
      simp [Tree.literalsAll, textsX, textsY, textsZ]
  | single x ih => exact ih built
  | infix2 x name y ihx ihy =>
      obtain ⟨p, hp, built⟩ := exists_of_bind_eq_ok built
      obtain ⟨q, hq, built⟩ := exists_of_bind_eq_ok built
      obtain ⟨_, _, visitX, textsX⟩ := ihx hp
      obtain ⟨_, _, visitY, textsY⟩ := ihy hq
      have startP := Pool.size_le_of_extends (Phrase.extends_of_build hp)
      have startQ := Pool.size_le_of_extends (Phrase.extends_of_build hq)
      have operands := visitX.append visitY (Phrase.extends_of_build hq) startP
      obtain ⟨u, w, visit, kept⟩ := operands.apply (Nat.le_trans startP startQ) built
      refine ⟨u, w, visit, ?_⟩
      rw [kept]
      simp [Tree.literalsAll, textsX, textsY]

end Standard

namespace Parse

open Schedule (Scheduler)

/-- Whatever is parsed is visited from its root, the literals in the order of its
tokens. -/
theorem exists_visit_of_parseWith {s : Scheduler} {tokens : List Token} {parsed : Parsed}
    (h : Registry.standard.parseWith s tokens = .ok parsed) :
    ∃ t visited, Standard.Visit 0 parsed.pool [parsed.root] [t] visited ∧
      t.literals = tokens.filterMap Token.literal? := by
  obtain ⟨d, rfl, built⟩ := exists_build_of_parseWith .standard s h
  exact Standard.exists_visit_of_build d built

/-- **No operand is lost, repeated or moved.**  Whatever is parsed under the standard
library unfolds from its root to the literals of its tokens in their order, on a
visit of all nodes that are reached.  None of them is visited twice; every one but
the root's is referenced exactly once among them.  All other nodes are markers of
which a reached conditional took the operands. -/
theorem parse_linear (s : Scheduler) (tokens : List Token) (parsed : Parsed)
    (h : Registry.standard.parseWith s tokens = .ok parsed) :
    ∃ t visited, parsed.pool.Unfolds [parsed.root] [t] visited ∧
      t.literals = tokens.filterMap Token.literal? ∧
      visited.Nodup ∧ (∀ j, j ∈ visited ↔ parsed.pool.Reaches parsed.root j) ∧
      (∀ j ∈ visited, parsed.root.reference? ≠ some j →
        (visited.flatMap parsed.pool.referencesAt).count j = 1) ∧
      ∀ i < parsed.pool.size, i ∉ visited →
        ∃ j ∈ visited, ∃ node, parsed.pool.get? j = some node ∧ parsed.pool.Superseded node i := by
  obtain ⟨t, visited, visit, texts⟩ := exists_visit_of_parseWith h
  refine ⟨t, visited, visit.unfolds, texts, visit.once, fun j => ?_,
    fun j => visit.unfolds.count_references visit.once, fun i => visit.rest i (Nat.zero_le i)⟩
  rw [visit.unfolds.mem_iff_reaches]
  simp

/-- The tokens of `if 'a' then (then 'b') else 'c'`: the nodes of the outer `then` and
of `else` are left behind, and the inner `then` is a branch. -/
theorem parse_linear_conditional :
    Registry.standard.parse
      [.operator "if" .prefix3, .literal "a", .operator "then" .prefix1, .bracket .openParen,
        .operator "then" .prefix1, .literal "b", .bracket .closeParen,
        .operator "else" .prefix1, .literal "c"] 15 =
          .ok ⟨.node 3, ⟨#[⟨"then", [.literal "b"]⟩, ⟨"then", [.node 0]⟩, ⟨"else", [.literal "c"]⟩,
            ⟨"if", [.literal "a", .skip (.node 0), .skip (.literal "c")]⟩]⟩⟩ ∧
      ∃ t visited, (Pool.mk #[⟨"then", [.literal "b"]⟩, ⟨"then", [.node 0]⟩,
          ⟨"else", [.literal "c"]⟩,
          ⟨"if", [.literal "a", .skip (.node 0), .skip (.literal "c")]⟩]).Unfolds
            [.node 3] [t] visited ∧
        t.literals = ["a", "b", "c"] ∧ visited.Nodup := by
  have run := (parseWith_eq_ok_iff .standard (.new Scheduler.defaultBatch 15) _ (by decide)).mpr
    ⟨.single (.prefix3 "if" (.single (.literal "a"))
      (.single (.prefix1 "then" (.paren (.single (.prefix1 "then" (.literal "b"))))))
      (.prefix1 "else" (.literal "c"))), rfl, rfl⟩
  refine ⟨run, ?_⟩
  obtain ⟨t, visited, unfolds, texts, once, -⟩ := parse_linear _ _ _ run
  exact ⟨t, visited, unfolds, texts, once⟩

end Parse

end RuleEngine
