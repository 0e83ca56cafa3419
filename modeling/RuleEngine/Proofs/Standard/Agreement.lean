import RuleEngine.Proofs.Engine.Compile
import RuleEngine.Proofs.Evaluate.Adequacy
import RuleEngine.Proofs.Parse.Fold
import RuleEngine.Proofs.Standard.Logic
import RuleEngine.Proofs.Token.Spelling

/-!
# The engine agrees with the meaning of logic

A tree of logic is followed through the engine: its text is read as the tokens of
its derivation, the derivation is folded to nodes, and the nodes are evaluated.
Each layer has its own statement, which does not mention the others.

The same conditional has three spellings, and the layers forget about them one after
the other.  The text and its derivation show the spelling, the pool still has the markers
of it, and in the operand that stands for the tree nothing is left of it.

The meaning of a tree is a recursive function that knows nothing of steps.  The number of
steps is bounded along with it, since a budget that allows them is what makes an
evaluation succeed; the bound does not depend on the host, which decides how many
operands are skipped.

## Main definitions

* `Compiled` - an operand of a pool stands for a tree, however it is written.
* `Amounts` - what evaluation makes of an operand, and in how many steps at most.

## Main statements

* `writes_render` - the text is read as the derivation's tokens.
* `build_phrase` - the derivation is folded to an operand that stands for the tree.
* `amounts_of_compiled` - such an operand is evaluated to the tree's meaning, in
  four steps for each operator and one more.
* `evaluate_render` - all of this together.
-/

namespace RuleEngine.Logic

open Parse (applyOperator Phrase operators actions)
open Registry (Writes)

/-! ### Reading -/

/-- The operators of a tree with one operand are operators of the standard library. -/
theorem Unary.mem_operators (op : Unary) :
    (op.name, Fixity.prefix1) ∈ Registry.standard.operators := by
  cases op <;> decide +kernel

/-- So are those with two operands, under both spellings. -/
theorem Binary.mem_operators (op : Binary) :
    (op.name, Fixity.infix2) ∈ Registry.standard.operators := by
  cases op <;> decide +kernel

/-- So are the three words of a conditional. -/
theorem words_mem_operators : ("if", Fixity.prefix3) ∈ Registry.standard.operators ∧
    ("then", Fixity.prefix1) ∈ Registry.standard.operators ∧
    ("else", Fixity.prefix1) ∈ Registry.standard.operators := by
  decide +kernel

/-- So are its two signs. -/
theorem signs_mem_operators : ("?", Fixity.infix2) ∈ Registry.standard.operators ∧
    (":", Fixity.infix2) ∈ Registry.standard.operators := by
  decide +kernel

/-- So is the sign that stands in front of a conditional. -/
theorem front_mem_operators : ("?:", Fixity.prefix3) ∈ Registry.standard.operators := by
  decide +kernel

/-- The text of a tree starts with a quote or a parenthesis.  Both are delimiters, so an operator
may stand directly in front of it. -/
theorem startsDelimited_render (t : Tree) (s : String) :
    Vocabulary.startsDelimited (t.render ++ s).toList := by
  cases t with
  | choice form c x y =>
      cases form <;> simp [Tree.render, Vocabulary.startsDelimited, Vocabulary.isDelimiter]
  | _ => simp [Tree.render, Vocabulary.startsDelimited, Vocabulary.isDelimiter]

/-- An operator with a space behind it spells itself, whatever the rest is. -/
theorem writes_operator_space {name : String} {fixity : Fixity} {tokens : List Token} {s : String}
    (mem : (name, fixity) ∈ Registry.standard.operators) (hs : Registry.standard.Writes tokens s) :
    Registry.standard.Writes (.operator name fixity :: tokens) (name ++ (" " ++ s)) := by
  refine Writes.operator Registry.regular_standard mem (Registry.writes_space.append hs) ?_
  simp [Vocabulary.startsDelimited, Vocabulary.isDelimiter, Text.isSpace]

/-- **The text of a tree is read as the tokens of its derivation.**  The induction is on the tree;
each case puts the texts of the parts together, with the operators between them. -/
theorem writes_render (t : Tree) : Registry.standard.Writes t.phrase.tokens t.render := by
  induction t with
  | literal l => exact Registry.writes_literal l.unquoted
  | unary op x ih =>
      -- The two names differ in what may follow them: a word needs a space.
      have inner : Registry.standard.Writes
          (.operator op.name .prefix1 :: (x.phrase.tokens ++ [.bracket .closeParen]))
          (op.name ++ (op.gap ++ (x.render ++ ")"))) := by
        cases op with
        | negation =>
            exact Writes.operator Registry.regular_standard (Unary.mem_operators .negation)
              (ih.append Registry.writes_close) (startsDelimited_render x ")")
        | truth =>
            exact writes_operator_space (Unary.mem_operators .truth)
              (ih.append Registry.writes_close)
      have whole := Registry.writes_open.append inner
      simpa [Tree.render, Tree.phrase, Phrase.tokens, String.append_assoc] using whole
  | binary op x y ihx ihy =>
      have second := writes_operator_space op.mem_operators (ihy.append Registry.writes_close)
      have whole := Registry.writes_open.append (ihx.append (Registry.writes_space.append second))
      simpa [Tree.render, Tree.phrase, Phrase.tokens, String.append_assoc] using whole
  | choice form c x y ihc ihx ihy =>
      cases form with
      | words =>
          have third := writes_operator_space words_mem_operators.2.2
            (ihy.append Registry.writes_close)
          have second := writes_operator_space words_mem_operators.2.1
            (ihx.append (Registry.writes_space.append third))
          have whole := Registry.writes_open.append (writes_operator_space words_mem_operators.1
            (ihc.append (Registry.writes_space.append second)))
          -- The text has each word together with the spaces around it.
          have text : Tree.render (.choice .words c x y) =
              "(" ++ ("if" ++ (" " ++ (c.render ++ (" " ++ ("then" ++ (" " ++ (x.render ++ (" " ++
                ("else" ++ (" " ++ (y.render ++ ")"))))))))))) := by
            rw [Tree.render, show "(if " = "(" ++ ("if" ++ " ") from rfl,
              show " then " = " " ++ ("then" ++ " ") from rfl,
              show " else " = " " ++ ("else" ++ " ") from rfl]
            simp only [String.append_assoc]
          rw [text]
          simpa [Tree.phrase, Phrase.tokens] using whole
      | signs =>
          have third := writes_operator_space signs_mem_operators.2
            (ihy.append Registry.writes_close)
          have second := writes_operator_space signs_mem_operators.1
            (ihx.append (Registry.writes_space.append third))
          have whole := Registry.writes_open.append
            (ihc.append (Registry.writes_space.append second))
          have text : Tree.render (.choice .signs c x y) =
              "(" ++ (c.render ++ (" " ++ ("?" ++ (" " ++ (x.render ++ (" " ++
                (":" ++ (" " ++ (y.render ++ ")"))))))))) := by
            rw [Tree.render, show " ? " = " " ++ ("?" ++ " ") from rfl,
              show " : " = " " ++ (":" ++ " ") from rfl]
            simp only [String.append_assoc]
          rw [text]
          simpa [Tree.phrase, Phrase.tokens] using whole
      | front =>
          have branches := ihx.append (Registry.writes_space.append
            (ihy.append Registry.writes_close))
          have whole := Registry.writes_open.append (writes_operator_space front_mem_operators
            (ihc.append (Registry.writes_space.append branches)))
          have text : Tree.render (.choice .front c x y) =
              "(" ++ ("?:" ++ (" " ++ (c.render ++ (" " ++ (x.render ++ (" " ++
                (y.render ++ ")"))))))) := by
            rw [Tree.render, show "(?: " = "(" ++ ("?:" ++ " ") from rfl]
            simp only [String.append_assoc]
          rw [text]
          simpa [Tree.phrase, Phrase.tokens] using whole

/-! ### Folding -/

/-- An operand of a pool stands for a tree. -/
inductive Compiled (pool : Pool) : Operand → Tree → Prop
  | literal {l} : Compiled pool (.literal l.text) (.literal l)
  | unary {op i x t} : pool.get? i = some ⟨op.name, [x]⟩ → Compiled pool x t →
      Compiled pool (.node i) (.unary op t)
  | binary {op i x y s t} : pool.get? i = some (op.node x y) → Compiled pool x s →
      Compiled pool y t → Compiled pool (.node i) (.binary op s t)
  | choice {form i c x y r s t} : pool.get? i = some (Standard.conditional c x y) →
      Compiled pool c r → Compiled pool x s → Compiled pool y t →
      Compiled pool (.node i) (.choice form r s t)

namespace Compiled

variable {pool pool' : Pool} {x : Operand} {t : Tree}

/-- An operand stands for the same tree in a larger pool.  So the part that was folded first is
still there when the other parts have been folded. -/
theorem mono (extends_ : pool.Extends pool') (h : Compiled pool x t) : Compiled pool' x t := by
  induction h with
  | literal => exact .literal
  | unary hi _ ih => exact .unary (extends_ _ _ hi) ih
  | binary hi _ _ ihx ihy => exact .binary (extends_ _ _ hi) ihx ihy
  | choice hi _ _ _ ihc ihx ihy => exact .choice (extends_ _ _ hi) ihc ihx ihy

/-- An operand that stands for a tree leads into the pool. -/
theorem within (h : Compiled pool x t) : x.Within pool := by
  intro i hi
  cases h with
  | literal => cases hi
  | unary found _ | binary found _ _ | choice found _ _ _ =>
      cases hi
      exact Pool.lt_of_get? found

end Compiled

/-- Operators of the standard library make their node over the operands' pool, if their desugaring
makes one and its operands are there. -/
theorem applyOperator_eq_ok {name : String} {operands : List Operand} {pool : Pool} {node : Node}
    {d : Definition} (found : Registry.standard.find? ⟨name, operands.length⟩ = some d)
    (made : d.nodeFor pool ⟨name, operands⟩ = .ok node)
    (within : ∀ x ∈ node.operands, x.Within pool) :
    applyOperator .standard name operands pool = .ok ⟨.node pool.size, pool.push node⟩ :=
  Parse.applyOperator_eq_ok_iff.mpr ⟨d, node, found, made, Pool.accepts_of_within within, rfl⟩

/-- The definition of an operator with one operand. -/
def Unary.definition (op : Unary) : Definition :=
  ⟨⟨op.name, 1⟩, .operator .prefix1,
    match op with
    | negation => Standard.negation
    | truth => Standard.truth,
    none⟩

/-- The body of an operator with two operands. -/
def Binary.body : Binary → Body
  | exclusion => Standard.exclusion
  | equality => Standard.equality
  | conjunction | andWord => Standard.conjunction
  | disjunction | orWord => Standard.disjunction

/-- What becomes of the node of an operator with two operands. -/
def Binary.desugar? : Binary → Option Desugaring
  | exclusion | equality => none
  | conjunction | disjunction => some Standard.deferSecond
  | andWord => some (Standard.deferSecondAs "&&")
  | orWord => some (Standard.deferSecondAs "||")

/-- The standard registry finds the operators with one operand, with their bodies. -/
theorem find?_unary (op : Unary) :
    Registry.standard.find? ⟨op.name, 1⟩ = some op.definition := by
  cases op <;> rfl

/-- It finds those with two operands, with their bodies and desugarings. -/
theorem find?_binary (op : Binary) : Registry.standard.find? ⟨op.name, 2⟩ =
    some ⟨⟨op.name, 2⟩, .operator .infix2, op.body, op.desugar?⟩ := by
  cases op <;> rfl

/-- An operator without a desugaring makes the node that is written. -/
theorem apply_plain {name : String} {operands : List Operand} {pool : Pool} {d : Definition}
    (found : Registry.standard.find? ⟨name, operands.length⟩ = some d) (plain : d.desugar? = none)
    (within : ∀ x ∈ operands, x.Within pool) :
    applyOperator .standard name operands pool =
      .ok ⟨.node pool.size, pool.push ⟨name, operands⟩⟩ := by
  refine applyOperator_eq_ok found ?_ within
  rw [Definition.nodeFor, plain]

/-- An operator with two operands makes its node, in which the second operand waits if the
operator is one of those. -/
theorem apply_binary (op : Binary) {pool : Pool} {x y : Operand} (hx : x.Within pool)
    (hy : y.Within pool) :
    applyOperator .standard op.name [x, y] pool =
      .ok ⟨.node pool.size, pool.push (op.node x y)⟩ := by
  refine applyOperator_eq_ok (find?_binary op) ?_ ?_
  · cases op <;> rfl
  · have hy' : (Operand.skip y).Within pool := hy
    cases op <;> simp [Binary.node, hx, hy, hy']

/-- The node of a conditional has its operands in the pool, if condition and branches are there. -/
theorem within_conditional {pool : Pool} {c x y : Operand} (hc : c.Within pool)
    (hx : x.Within pool) (hy : y.Within pool) :
    ∀ operand ∈ (Standard.conditional c x y).operands, operand.Within pool := by
  have hx' : (Operand.skip x).Within pool := hx
  have hy' : (Operand.skip y).Within pool := hy
  simp [Standard.conditional, hc, hx', hy']

/-- The markers are looked up where the branches were folded, and their operands are taken.  The
markers stay in the pool, and nothing refers to them any more. -/
theorem apply_if {pool : Pool} {c x y : Operand} {i j : Nat} (hc : c.Within pool)
    (hx : x.Within pool) (hy : y.Within pool) (hi : pool.get? i = some ⟨"then", [x]⟩)
    (hj : pool.get? j = some ⟨"else", [y]⟩) :
    applyOperator .standard "if" [c, .node i, .node j] pool =
      .ok ⟨.node pool.size, pool.push (Standard.conditional c x y)⟩ := by
  refine applyOperator_eq_ok (d := ⟨⟨"if", 3⟩, .operator .prefix3, Standard.branch,
    some Standard.fromMarked⟩) rfl ?_ (within_conditional hc hx hy)
  simp [Definition.nodeFor, Standard.fromMarked, Standard.marked?, Pool.pointee?, hi, hj]

/-- A conditional in signs takes its condition and its first branch from the node of its marker. -/
theorem apply_colon {pool : Pool} {c x y : Operand} {i : Nat} (hc : c.Within pool)
    (hx : x.Within pool) (hy : y.Within pool) (hi : pool.get? i = some ⟨"?", [c, x]⟩) :
    applyOperator .standard ":" [.node i, y] pool =
      .ok ⟨.node pool.size, pool.push (Standard.conditional c x y)⟩ := by
  refine applyOperator_eq_ok (d := ⟨⟨":", 2⟩, .operator .infix2,
    Standard.misplaced "`?` branch expected", some Standard.fromJoined⟩) rfl ?_
    (within_conditional hc hx hy)
  simp [Definition.nodeFor, Standard.fromJoined, Pool.pointee?, hi]

/-- A conditional with the sign in front has no markers, and its operands are those that are
written. -/
theorem apply_front {pool : Pool} {c x y : Operand} (hc : c.Within pool) (hx : x.Within pool)
    (hy : y.Within pool) :
    applyOperator .standard "?:" [c, x, y] pool =
      .ok ⟨.node pool.size, pool.push (Standard.conditional c x y)⟩ :=
  applyOperator_eq_ok rfl rfl (within_conditional hc hx hy)

/-- The derivation of a tree over a pool is folded to an operand that stands for
the tree, with one new node for each operator. -/
def Folds (t : Tree) (pool : Pool) : Prop :=
  ∃ root pool', t.phrase.build .standard pool = .ok ⟨root, pool'⟩ ∧ pool.Extends pool' ∧
    pool'.size = pool.size + t.applications ∧ Compiled pool' root t

/-- **The derivation of a tree is folded to the tree**, over any pool.  What was in the pool
stays, and one node is added for each operator of the text. -/
theorem build_phrase (t : Tree) (pool : Pool) : Folds t pool := by
  induction t generalizing pool with
  | literal l => exact ⟨.literal l.text, pool, rfl, .refl pool, rfl, .literal⟩
  | unary op x ih =>
      obtain ⟨rx, p, hx, ext, size, cx⟩ := ih pool
      refine ⟨.node p.size, p.push ⟨op.name, [rx]⟩, ?_, ext.trans (p.extends_push _), ?_, ?_⟩
      · simp only [Tree.phrase, Phrase.build, hx]
        exact apply_plain (find?_unary op) rfl (by simpa using cx.within)
      · rw [Pool.size_push, size, Tree.applications, Nat.add_assoc]
      · exact .unary (p.get?_push_size _) (cx.mono (p.extends_push _))
  | binary op x y ihx ihy =>
      obtain ⟨rx, p, hx, ext, size, cx⟩ := ihx pool
      obtain ⟨ry, q, hy, ext', size', cy⟩ := ihy p
      have cx' := cx.mono ext'
      refine ⟨.node q.size, q.push (op.node rx ry), ?_,
        (ext.trans ext').trans (q.extends_push _), ?_, ?_⟩
      · simp only [Tree.phrase, Phrase.build, hx]
        show (y.phrase.build .standard p >>= _) = _
        rw [hy]
        exact apply_binary op cx'.within cy.within
      · rw [Pool.size_push, size', size, Tree.applications]
        omega
      · exact .binary (q.get?_push_size _) (cx'.mono (q.extends_push _))
          (cy.mono (q.extends_push _))
  | choice form c x y ihc ihx ihy =>
      obtain ⟨rc, p, hc, extc, sizec, cc⟩ := ihc pool
      obtain ⟨rx, q, hx, extx, sizex, cx⟩ := ihx p
      cases form with
      | words =>
          -- The pool gets the condition, the first branch, its marker, the second branch
          -- and its marker; the conditional refers to the branches behind the markers.
          have marked := q.extends_push ⟨"then", [rx]⟩
          obtain ⟨ry, r, hy, exty, sizey, cy⟩ := ihy (q.push ⟨"then", [rx]⟩)
          have marked' := r.extends_push ⟨"else", [ry]⟩
          have cc' := cc.mono (((extx.trans marked).trans exty).trans marked')
          have cx' := cx.mono ((marked.trans exty).trans marked')
          have cy' := cy.mono marked'
          have last := (r.push ⟨"else", [ry]⟩).extends_push (Standard.conditional rc rx ry)
          refine ⟨_, _, ?_,
            ((((extc.trans extx).trans marked).trans exty).trans marked').trans last, ?_,
            .choice (Pool.get?_push_size _ _) (cc'.mono last) (cx'.mono last) (cy'.mono last)⟩
          · simp only [Tree.phrase, Phrase.build, hc]
            show ((x.phrase.build .standard p >>= _) >>= _) = _
            rw [hx]
            show (applyOperator .standard "then" [rx] q >>= _) = _
            rw [apply_plain rfl rfl (by simpa using cx.within)]
            show ((y.phrase.build .standard (q.push ⟨"then", [rx]⟩) >>= _) >>= _) = _
            rw [hy]
            show (applyOperator .standard "else" [ry] r >>= _) = _
            rw [apply_plain rfl rfl (by simpa using cy.within)]
            exact apply_if cc'.within cx'.within cy'.within
              (marked' _ _ (exty _ _ (q.get?_push_size _))) (r.get?_push_size _)
          · simp only [Pool.size_push, sizey, sizex, sizec, Tree.applications]
            omega
      | signs =>
          -- Here the condition and the first branch are joined before the second one.
          have joined := q.extends_push ⟨"?", [rc, rx]⟩
          obtain ⟨ry, r, hy, exty, sizey, cy⟩ := ihy (q.push ⟨"?", [rc, rx]⟩)
          have cc' := cc.mono ((extx.trans joined).trans exty)
          have cx' := cx.mono (joined.trans exty)
          have last := r.extends_push (Standard.conditional rc rx ry)
          refine ⟨_, _, ?_, (((extc.trans extx).trans joined).trans exty).trans last, ?_,
            .choice (Pool.get?_push_size _ _) (cc'.mono last) (cx'.mono last) (cy.mono last)⟩
          · simp only [Tree.phrase, Phrase.build, hc]
            show ((x.phrase.build .standard p >>= _) >>= _) = _
            rw [hx]
            show (applyOperator .standard "?" [rc, rx] q >>= _) = _
            rw [apply_plain rfl rfl (by simp [(cc.mono extx).within, cx.within])]
            show (y.phrase.build .standard (q.push ⟨"?", [rc, rx]⟩) >>= _) = _
            rw [hy]
            exact apply_colon cc'.within cx'.within cy.within (exty _ _ (q.get?_push_size _))
          · simp only [Pool.size_push, sizey, sizex, sizec, Tree.applications]
            omega
      | front =>
          obtain ⟨ry, r, hy, exty, sizey, cy⟩ := ihy q
          have cc' := cc.mono (extx.trans exty)
          have cx' := cx.mono exty
          have last := r.extends_push (Standard.conditional rc rx ry)
          refine ⟨_, _, ?_, ((extc.trans extx).trans exty).trans last, ?_,
            .choice (Pool.get?_push_size _ _) (cc'.mono last) (cx'.mono last) (cy.mono last)⟩
          · simp only [Tree.phrase, Phrase.build, hc]
            show (x.phrase.build .standard p >>= _) = _
            rw [hx]
            show (y.phrase.build .standard q >>= _) = _
            rw [hy]
            exact apply_front cc'.within cx'.within cy.within
          · simp only [Pool.size_push, sizey, sizex, sizec, Tree.applications]
            omega

/-! ### Evaluation -/

section Evaluation

open Semantics

/-- In any environment, the operand is evaluated to the value in at most `cost`
steps and one more, and among the operands of a node it becomes that value in at
most `cost` steps. -/
structure Amounts (context : Context) (x : Operand) (v : Value) (cost : Nat) : Prop where
  /-- Evaluated on its own. -/
  evaluates : ∀ env, ∃ n, n ≤ cost + 1 ∧ Evaluates context env x n (.ok v)
  /-- Among the operands of a node. -/
  prepares : ∀ env rest n args, Prepares context env rest n (.ok args) →
    ∃ m, m ≤ cost + n ∧ Prepares context env (x :: rest) m (.ok (.value v :: args))

variable {context : Context} {x y c : Operand} {u v w : Value} {k m cost : Nat}

/-- A literal amounts to its text, and no step is needed for it. -/
theorem amounts_literal (s : String) : Amounts context (.literal s) (.str s) 0 where
  evaluates _ := ⟨1, Nat.le_refl 1, .literal⟩
  prepares _ _ n _ h := ⟨n, by omega, .literal h⟩

/-- A node amounts to what it computes, with two steps more: one to enter it and one to hand over
its value. -/
theorem amounts_node {i : Nat}
    (h : ∀ env, ∃ n, n + 2 ≤ cost ∧ Computes context env i n (.ok v)) :
    Amounts context (.node i) v cost where
  evaluates env := by
    obtain ⟨n, bound, computes⟩ := h env
    exact ⟨n + 1, by omega, .value computes⟩
  prepares env rest n args hrest := by
    obtain ⟨m, bound, computes⟩ := h env
    exact ⟨m + 2 + n, by omega, .node computes hrest⟩

/-- A body that hands nothing over comes to its own outcome. -/
theorem call_direct {scope : Scope} {registry : Registry} {args : List Arg}
    {run : Scope → List Arg → Except OperationError Outcome} {outcome : Outcome}
    (h : run scope args = .ok outcome) :
    registry.call scope (.direct run) args = .ok outcome := by
  have reply : (Body.direct run).run scope args = .ok (.outcome outcome) := by
    simp only [Body.direct, h]
    rfl
  rw [Registry.call_eq, reply]

section Calls

variable (registry : Registry) (scope : Scope) (u w : Value) (s s' : Suspension)

theorem call_truth :
    registry.call scope Standard.truth [.value u] = .ok (.value (.bool (u.isTruthy scope.host))) :=
  call_direct rfl

theorem call_negation :
    registry.call scope Standard.negation [.value u] =
      .ok (.value (.bool (!u.isTruthy scope.host))) :=
  call_direct rfl

theorem call_exclusion :
    registry.call scope Standard.exclusion [.value u, .value w] =
      .ok (.value (.bool (u.isTruthy scope.host != w.isTruthy scope.host))) :=
  call_direct rfl

theorem call_equality :
    registry.call scope Standard.equality [.value u, .value w] = .ok (.value (.bool (u = w))) :=
  call_direct rfl

/-- A conjunction asks for its second operand only if the first one holds, and else has the value
of the first one. -/
theorem call_conjunction :
    registry.call scope Standard.conjunction [.value u, .deferred s] =
      .ok (if u.isTruthy scope.host then .demand (.force s) else .value u) := by
  refine call_direct ?_
  show (if u.isTruthy scope.host then _ else _) = _
  split <;> rfl

/-- A disjunction asks for its second operand only if the first one does not hold. -/
theorem call_disjunction :
    registry.call scope Standard.disjunction [.value u, .deferred s] =
      .ok (if u.isTruthy scope.host then .value u else .demand (.force s)) := by
  refine call_direct ?_
  show (if u.isTruthy scope.host then _ else _) = _
  split <;> rfl

/-- A conditional asks for one of its branches, and never for the other. -/
theorem call_branch :
    registry.call scope Standard.branch [.value u, .deferred s, .deferred s'] =
      .ok (.demand (.force (if u.isTruthy scope.host then s else s'))) := by
  refine call_direct ?_
  show (if u.isTruthy scope.host then _ else _) = _
  split <;> rfl

end Calls

/-- A node whose body gives a value, or forces an operand that was deferred in the same
environment.  The steps are those of the operands that are prepared and of the one that is forced,
if any. -/
theorem amounts_of_call (k extra : Nat) {node : Node} {i : Nat} {d : Definition}
    (found : context.pool.get? i = some node)
    (registered : context.registry.find? node.signature = some d)
    (call : ∀ env, ∃ n args, n ≤ k ∧ Prepares context env node.operands n (.ok args) ∧
      (context.registry.call (scopeIn context env) d.body args = .ok (.value v) ∨
        ∃ y m, Amounts context y v m ∧ m ≤ extra ∧
          context.registry.call (scopeIn context env) d.body args =
            .ok (.demand (.force ⟨y, env⟩)))) :
    Amounts context (.node i) v (k + extra + 4) := by
  refine amounts_node fun env => ?_
  obtain ⟨n, args, hn, hargs, value | ⟨y, m, hy, small, demand⟩⟩ := call env
  · exact ⟨n + 1, by omega, .value found hargs registered value⟩
  · obtain ⟨l, hl, forced⟩ := hy.evaluates env
    exact ⟨n + 1 + l, by omega, .demand found hargs registered demand (.force forced)⟩

/-- A node that evaluates its operand amounts to what its body makes of the value. -/
theorem amounts_single {name : String} {i : Nat} {d : Definition}
    (found : context.pool.get? i = some ⟨name, [x]⟩)
    (registered : context.registry.find? ⟨name, 1⟩ = some d) (hx : Amounts context x u k)
    (call : ∀ env,
      context.registry.call (scopeIn context env) d.body [.value u] = .ok (.value v)) :
    Amounts context (.node i) v (k + 4) := by
  refine amounts_of_call k 0 found registered fun env => ?_
  obtain ⟨n, hn, prepared⟩ := hx.prepares env [] 0 [] .nil
  exact ⟨n, _, hn, prepared, .inl (call env)⟩

/-- A node that evaluates both of its operands amounts to what its body makes of the two values. -/
theorem amounts_eager {name : String} {i : Nat} {d : Definition}
    (found : context.pool.get? i = some ⟨name, [x, y]⟩)
    (registered : context.registry.find? ⟨name, 2⟩ = some d)
    (hx : Amounts context x u k) (hy : Amounts context y w m)
    (call : ∀ env, context.registry.call (scopeIn context env) d.body [.value u, .value w] =
      .ok (.value v)) :
    Amounts context (.node i) v (k + m + 4) := by
  refine amounts_of_call (k + m) 0 found registered fun env => ?_
  -- A derivation for operands is built from the last one.
  obtain ⟨n, hn, second⟩ := hy.prepares env [] 0 [] .nil
  obtain ⟨l, hl, both⟩ := hx.prepares env _ _ _ second
  exact ⟨l, _, by omega, both, .inl (call env)⟩

/-- A node that evaluates its first operand, and the second one only if that is asked for.  The
bound allows for both, since it must not depend on the host. -/
theorem amounts_lazy {name : String} {i : Nat} {d : Definition} {asked : Bool}
    (found : context.pool.get? i = some ⟨name, [x, .skip y]⟩)
    (registered : context.registry.find? ⟨name, 2⟩ = some d)
    (hx : Amounts context x u k) (hy : Amounts context y w m)
    (call : ∀ env,
      context.registry.call (scopeIn context env) d.body [.value u, .deferred ⟨y, env⟩] =
        .ok (if asked then .demand (.force ⟨y, env⟩) else .value u)) :
    Amounts context (.node i) (if asked then w else u) (k + m + 4) := by
  refine amounts_of_call k m found registered fun env => ?_
  obtain ⟨n, hn, first⟩ := hx.prepares env [.skip y] 0 [.deferred ⟨y, env⟩] (.skip .nil)
  refine ⟨n, _, hn, first, ?_⟩
  cases asked with
  | true => exact .inr ⟨y, m, hy, Nat.le_refl m, call env⟩
  | false => exact .inl (call env)

variable {host : Host} {pool : Pool}

/-- An operator with one operand amounts to what it means, in four steps beyond its operand. -/
theorem amounts_unary (op : Unary) {i : Nat} {a : Meaning}
    (found : pool.get? i = some ⟨op.name, [x]⟩)
    (hx : Amounts ⟨host, .standard, pool⟩ x a.toValue k) :
    Amounts ⟨host, .standard, pool⟩ (.node i) (op.apply host a).toValue (k + 4) := by
  refine amounts_single found (find?_unary op) hx fun env => ?_
  cases op with
  | negation =>
      refine (call_negation _ _ _).trans ?_
      rw [Meaning.isTruthy_toValue]
      rfl
  | truth =>
      refine (call_truth _ _ _).trans ?_
      rw [Meaning.isTruthy_toValue]
      rfl

/-- A conjunction amounts to the value of one of its operands, which need not be a truth value. -/
theorem amounts_conjunction {i : Nat} {a b : Meaning}
    (found : pool.get? i = some ⟨"&&", [x, .skip y]⟩)
    (hx : Amounts ⟨host, .standard, pool⟩ x a.toValue k)
    (hy : Amounts ⟨host, .standard, pool⟩ y b.toValue m) :
    Amounts ⟨host, .standard, pool⟩ (.node i) (if a.holds host then b else a).toValue
      (k + m + 4) := by
  rw [apply_ite Meaning.toValue]
  refine amounts_lazy found (find?_binary .conjunction) hx hy fun env => ?_
  refine (call_conjunction _ _ _ _).trans ?_
  rw [Meaning.isTruthy_toValue]
  rfl

theorem amounts_disjunction {i : Nat} {a b : Meaning}
    (found : pool.get? i = some ⟨"||", [x, .skip y]⟩)
    (hx : Amounts ⟨host, .standard, pool⟩ x a.toValue k)
    (hy : Amounts ⟨host, .standard, pool⟩ y b.toValue m) :
    Amounts ⟨host, .standard, pool⟩ (.node i) (if a.holds host then a else b).toValue
      (k + m + 4) := by
  have swapped : (if a.holds host then a else b).toValue =
      if !a.holds host then b.toValue else a.toValue := by
    cases a.holds host <;> rfl
  rw [swapped]
  refine amounts_lazy found (find?_binary .disjunction) hx hy fun env => ?_
  refine (call_disjunction _ _ _ _).trans ?_
  rw [Meaning.isTruthy_toValue]
  show Except.ok (if a.holds host then _ else _) = _
  cases a.holds host <;> rfl

/-- An operator with two operands amounts to what it means, in four steps beyond its operands. -/
theorem amounts_binary (op : Binary) {i : Nat} {a b : Meaning}
    (found : pool.get? i = some (op.node x y))
    (hx : Amounts ⟨host, .standard, pool⟩ x a.toValue k)
    (hy : Amounts ⟨host, .standard, pool⟩ y b.toValue m) :
    Amounts ⟨host, .standard, pool⟩ (.node i) (op.apply host a b).toValue (k + m + 4) := by
  cases op with
  | exclusion =>
      refine amounts_eager found (find?_binary .exclusion) hx hy fun env => ?_
      refine (call_exclusion _ _ _ _).trans ?_
      rw [Meaning.isTruthy_toValue, Meaning.isTruthy_toValue]
      rfl
  | equality =>
      refine amounts_eager found (find?_binary .equality) hx hy fun env => ?_
      refine (call_equality _ _ _ _).trans ?_
      simp only [Meaning.toValue_inj]
      rfl
  | conjunction | andWord => exact amounts_conjunction found hx hy
  | disjunction | orWord => exact amounts_disjunction found hx hy

theorem amounts_choice {i : Nat} {r a b : Meaning}
    (found : pool.get? i = some (Standard.conditional c x y))
    (hc : Amounts ⟨host, .standard, pool⟩ c r.toValue k)
    (hx : Amounts ⟨host, .standard, pool⟩ x a.toValue m)
    (hy : Amounts ⟨host, .standard, pool⟩ y b.toValue cost) :
    Amounts ⟨host, .standard, pool⟩ (.node i) (if r.holds host then a else b).toValue
      (k + (m + cost) + 4) := by
  have registered : Registry.standard.find? (Standard.conditional c x y).signature =
      some ⟨⟨"if", 3⟩, .operator .prefix3, Standard.branch, some Standard.fromMarked⟩ := rfl
  refine amounts_of_call k (m + cost) found registered fun env => ?_
  obtain ⟨n, hn, first⟩ := hc.prepares env [.skip x, .skip y] 0
    [.deferred ⟨x, env⟩, .deferred ⟨y, env⟩] (.skip (.skip .nil))
  refine ⟨n, _, hn, first, .inr ?_⟩
  have call := call_branch .standard (scopeIn ⟨host, .standard, pool⟩ env) r.toValue
    ⟨x, env⟩ ⟨y, env⟩
  rw [Meaning.isTruthy_toValue] at call
  change _ = Except.ok (Outcome.demand (.force (if r.holds host then _ else _))) at call
  cases decided : r.holds host with
  | true =>
      rw [decided] at call
      exact ⟨x, m, hx, Nat.le_add_right m cost, call⟩
  | false =>
      rw [decided] at call
      exact ⟨y, cost, hy, Nat.le_add_left cost m, call⟩

/-- An operand that amounts to a value in so many steps does so in more. -/
theorem Amounts.mono (h : Amounts context x v k) (more : k ≤ m) : Amounts context x v m where
  evaluates env := by
    obtain ⟨n, hn, h'⟩ := h.evaluates env
    exact ⟨n, by omega, h'⟩
  prepares env rest n args hrest := by
    obtain ⟨l, hl, h'⟩ := h.prepares env rest n args hrest
    exact ⟨l, by omega, h'⟩

/-- **Operands are evaluated to the meaning of their tree**, in at most four steps for each
operator and one more. -/
theorem amounts_of_compiled {t : Tree} (h : Compiled pool x t) :
    Amounts ⟨host, .standard, pool⟩ x (t.model host).toValue (4 * t.applications) := by
  induction h with
  | literal => exact amounts_literal _
  | unary found _ ih => exact amounts_unary _ found ih
  | binary found _ _ ihx ihy =>
      refine (amounts_binary _ found ihx ihy).mono ?_
      rw [Tree.applications]
      omega
  | @choice form _ _ _ _ _ _ _ found _ _ _ ihc ihx ihy =>
      refine (amounts_choice found ihc ihx ihy).mono ?_
      cases form <;> rw [Tree.applications] <;> omega

end Evaluation

/-! ### The engine -/

/-- The text of a tree is read without an error, under no condition on its size. -/
theorem tokenize_render (t : Tree) :
    Registry.standard.tokenize t.render = .ok (Phrase.single t.phrase).tokens :=
  (writes_render t).tokenize

/-- Within the budget, the text of a tree is compiled to an operand that stands for
the tree, with one node for each operator. -/
theorem compile_render (t : Tree) (config : Config) (valid : config.fault? = none)
    (parses : actions (Phrase.single t.phrase).tokens + 1 ≤ config.parseBudget) :
    ∃ root pool, Engine.compile ⟨.standard, config, valid⟩ t.render =
        .ok ⟨root, pool, .standard, config⟩ ∧
      pool.size = t.applications ∧ Compiled pool root t := by
  obtain ⟨root, pool, built, -, size, compiled⟩ := build_phrase t .empty
  refine ⟨root, pool, ?_, ?_, compiled⟩
  · exact Engine.compile_eq_ok_iff.mpr
      ⟨.single t.phrase, tokenize_render t, parses, built, rfl⟩
  · rw [size, Pool.size_empty, Nat.zero_add]

/-- **The engine agrees with the meaning of logic.**  The text of a tree is read
without an error.  If the parse budget has an action for each token, one for each
operator and one more, it is compiled.  If the step budget has four steps for each
node and one more, it is evaluated to the meaning of the tree. -/
theorem evaluate_render (t : Tree) (host : Host) (config : Config)
    (valid : config.fault? = none) :
    ∃ tokens, Engine.tokenize ⟨.standard, config, valid⟩ t.render = .ok tokens ∧
      (tokens.length + operators tokens + 1 ≤ config.parseBudget →
        ∃ e, Engine.compile ⟨.standard, config, valid⟩ t.render = .ok e ∧
          (4 * e.pool.size + 1 ≤ config.stepBudget →
            e.evaluate host = .ok (t.model host).toValue)) := by
  refine ⟨_, tokenize_render t, fun parses => ?_⟩
  obtain ⟨root, pool, compiles, size, compiled⟩ := compile_render t config valid parses
  refine ⟨_, compiles, fun steps => ?_⟩
  obtain ⟨n, bound, evaluates⟩ := (amounts_of_compiled compiled).evaluates .empty
  have enough : n ≤ (config.scheduler config.stepBudget).budget := by
    show n ≤ config.stepBudget
    dsimp only at steps
    omega
  exact seen?_eq_ok_iff.mp (Context.evaluate_of_evaluates evaluates enough).1

/-- A conditional in words, for a host without any data. -/
theorem evaluate_conditional :
    ∃ e, Engine.standard.compile "(if ('a' || 'true') then (!'b') else 'c')" = .ok e ∧
      e.evaluate (Record.toHost .empty) = .ok (.bool true) := by
  let t : Tree := .choice .words
    (.binary .disjunction (.literal ⟨"a", by decide⟩) (.literal ⟨"true", by decide⟩))
    (.unary .negation (.literal ⟨"b", by decide⟩)) (.literal ⟨"c", by decide⟩)
  have text : t.render = "(if ('a' || 'true') then (!'b') else 'c')" := by decide
  obtain ⟨tokens, read, compiles⟩ := evaluate_render t (Record.toHost .empty) {} (by decide)
  obtain rfl : _ = tokens := Except.ok.inj ((tokenize_render t).symm.trans read)
  obtain ⟨e, compiled, evaluates⟩ := compiles (by decide)
  obtain ⟨root, pool, compiled', size, -⟩ := compile_render t {} (by decide) (by decide)
  obtain rfl : _ = e := Except.ok.inj (compiled'.symm.trans compiled)
  refine ⟨_, text ▸ compiled, evaluates ?_⟩
  rw [size]
  decide

end RuleEngine.Logic
