import RuleEngine.Proofs.Evaluate.Renumbering
import RuleEngine.Proofs.Schedule.Budget
import RuleEngine.Proofs.Standard.Folding
import RuleEngine.Proofs.Standard.Linear
import RuleEngine.Proofs.Standard.Respelling
import RuleEngine.Proofs.Standard.Uniform

/-!
# Spellings of the same expression

Conjunctions and disjunctions have two spellings each, conditionals have three.  All
spellings of an expression come to the same tree.  For `and` and `or` even the nodes
are the same.  The conditionals leave different markers behind, so that their nodes
have different numbers; since a conditional is unfolded without visiting a marker or
visiting a node twice, evaluation is the same but for numbers.

The fourth conditional, `?:NS`, is another operation.  It evaluates both branches
first, and comes to the same value if they have values.

## Main definitions

* `Form.phrase`, `Form.tokens` - the three spellings of a conditional.
* `Parse.Interchangeable` - two results unfold to the same tree and are evaluated
  alike.
* `Parse.Starved` - parsing has used up a budget that is too small.
* `Parse.HasValue` - tokens are an expression that is evaluated to a value.

## Main statements

* `Standard.forms_same` - the spellings of a conditional are folded to the same tree.
* `interchangeable_of_sameTrees` - the same tree is evaluated alike.
* `spellings_agree` - all spellings, from tokens to values.
-/

namespace RuleEngine

open Logic (Form)
open Schedule (Scheduler)

namespace Logic.Form

open Parse (Phrase)

/-- The derivation of a conditional. -/
def phrase (form : Form) (c x y : Phrase .atom) : Phrase .expression :=
  match form with
  | words => .single (.prefix3 "if" (.single c) (.single (.prefix1 "then" x)) (.prefix1 "else" y))
  | signs => .infix2 (.infix2 (.single c) "?" x) ":" y
  | front => .single (.prefix3 "?:" (.single c) (.single x) y)

/-- The tokens of a conditional. -/
def tokens (form : Form) (c x y : List Token) : List Token :=
  match form with
  | words => .operator "if" .prefix3 :: (c ++ .operator "then" .prefix1 :: x ++
      .operator "else" .prefix1 :: y)
  | signs => c ++ .operator "?" .infix2 :: x ++ .operator ":" .infix2 :: y
  | front => .operator "?:" .prefix3 :: (c ++ x ++ y)

/-- Each spelling has the tokens of its parts, with its own operators around them. -/
theorem tokens_phrase (form : Form) (c x y : Phrase .atom) :
    (form.phrase c x y).tokens = form.tokens c.tokens x.tokens y.tokens := by
  cases form <;> simp [phrase, tokens, Phrase.tokens]

end Logic.Form

/-! ### Folding conditionals -/

namespace Standard

open Parse (Phrase Parsed SameFold applyOperator)
open Pool (SameTrees)

variable {pool pool' : Pool} {c x y : Operand} {cond first second : Phrase .atom} {p q : Parsed}

/-- The operands unfold to the parts of the conditional that `parsed` unfolds to. -/
def Chooses (pool : Pool) (c x y : Operand) (parsed : Parsed) : Prop :=
  ∃ r s t v w, pool.Unfolds [c, x, y] [r, s, t] v ∧
    parsed.pool.Unfolds [parsed.root] [.node "if" [r, .skip s, .skip t]] w

/-- A node of a conditional chooses between its branches, if these have the same trees as the
given ones. -/
theorem chooses_push {c' x' y' : Operand} (hc : SameTrees pool pool' [c] [c'])
    (hx : SameTrees pool pool' [x] [x']) (hy : SameTrees pool pool' [y] [y']) :
    Chooses pool c x y ⟨.node pool'.size, pool'.push (conditional c' x' y')⟩ := by
  have more := pool'.extends_push (conditional c' x' y')
  obtain ⟨rs, u, u', unfoldsC, unfoldsC'⟩ := hc
  obtain ⟨ss, v, v', unfoldsX, unfoldsX'⟩ := hx
  obtain ⟨ts, w, w', unfoldsY, unfoldsY'⟩ := hy
  obtain ⟨r, rfl⟩ := unfoldsC.exists_of_singleton
  obtain ⟨s, rfl⟩ := unfoldsX.exists_of_singleton
  obtain ⟨t, rfl⟩ := unfoldsY.exists_of_singleton
  have operands := unfoldsC'.cons (unfoldsX'.of_skip.cons unfoldsY'.of_skip)
  exact ⟨r, s, t, _, _, unfoldsC.cons (unfoldsX.cons unfoldsY),
    .of_node (pool'.get?_push_size _) (operands.mono more)⟩

/-- What a derivation is folded to unfolds, and is the same as itself. -/
theorem sameTrees_of_build {category : Parse.Category} {d : Phrase category} {parsed : Parsed}
    (built : d.build .standard pool = .ok parsed) :
    SameTrees parsed.pool parsed.pool [parsed.root] [parsed.root] := by
  obtain ⟨t, v, visit, -⟩ := exists_visit_of_build d built
  exact .refl ⟨[t], v, visit.unfolds⟩

/-- The words leave their markers in the pool, one before and one after the second
branch. -/
theorem build_words (hc : cond.build .standard .empty = .ok p)
    (hx : first.build .standard p.pool = .ok q) :
    Matches Eq (fun r parsed => Chooses r.pool p.root q.root r.root parsed)
      (second.build .standard q.pool)
      ((Form.words.phrase cond first second).build .standard .empty) := by
  have withinC := Phrase.within_of_build hc
  have withinX := Phrase.within_of_build hx
  have marked := q.pool.extends_push ⟨"then", [q.root]⟩
  have then_ : applyOperator .standard "then" [q.root] q.pool =
      .ok ⟨.node q.pool.size, q.pool.push ⟨"then", [q.root]⟩⟩ :=
    Logic.apply_plain rfl rfl (by simpa using withinX)
  -- The marker is in the pool when the second branch is folded, but that makes no difference.
  have same := build_same second q.pool (q.pool.push ⟨"then", [q.root]⟩)
  have starts : (Form.words.phrase cond first second).build .standard .empty =
      (second.build .standard (q.pool.push ⟨"then", [q.root]⟩) >>= fun r =>
        applyOperator .standard "else" [r.root] r.pool) >>= fun r =>
          applyOperator .standard "if" [p.root, .node q.pool.size, r.root] r.pool := by
    simp only [Form.phrase, Phrase.build]
    rw [bind_of_eq_ok hc, bind_of_eq_ok ((bind_of_eq_ok hx).trans then_)]
  rw [starts]
  cases hy : second.build .standard q.pool with
  | error fault =>
      obtain ⟨_, hy', rfl⟩ := same.exists_error hy
      rw [bind_of_eq_error (bind_of_eq_error hy')]
      exact rfl
  | ok r =>
      obtain ⟨r', hy', fold⟩ := same.exists_ok hy
      have withinY := Phrase.within_of_build hy'
      have more := (Phrase.extends_of_build hx).trans fold.left
      have marked' := r'.pool.extends_push ⟨"else", [r'.root]⟩
      have later := fold.right.trans marked'
      have else_ : applyOperator .standard "else" [r'.root] r'.pool =
          .ok ⟨.node r'.pool.size, r'.pool.push ⟨"else", [r'.root]⟩⟩ :=
        Logic.apply_plain rfl rfl (by simpa using withinY)
      have extX := marked.trans later
      have extC := (Phrase.extends_of_build hx).trans extX
      rw [bind_of_eq_ok ((bind_of_eq_ok hy').trans else_),
        Logic.apply_if (withinC.extends extC) (withinX.extends extX) (withinY.extends marked')
          (later _ _ (q.pool.get?_push_size _)) (r'.pool.get?_push_size _)]
      exact chooses_push ((sameTrees_of_build hc).mono more extC)
        ((sameTrees_of_build hx).mono fold.left extX) (fold.trees.mono (.refl _) marked')

/-- The signs leave one marker, before the second branch. -/
theorem build_signs (hc : cond.build .standard .empty = .ok p)
    (hx : first.build .standard p.pool = .ok q) :
    Matches Eq (fun r parsed => Chooses r.pool p.root q.root r.root parsed)
      (second.build .standard q.pool)
      ((Form.signs.phrase cond first second).build .standard .empty) := by
  have withinC := (Phrase.within_of_build hc).extends (Phrase.extends_of_build hx)
  have withinX := Phrase.within_of_build hx
  have marked := q.pool.extends_push ⟨"?", [p.root, q.root]⟩
  have joined : applyOperator .standard "?" [p.root, q.root] q.pool =
      .ok ⟨.node q.pool.size, q.pool.push ⟨"?", [p.root, q.root]⟩⟩ :=
    Logic.apply_plain rfl rfl (by simp [withinC, withinX])
  have same := build_same second q.pool (q.pool.push ⟨"?", [p.root, q.root]⟩)
  have starts : (Form.signs.phrase cond first second).build .standard .empty =
      second.build .standard (q.pool.push ⟨"?", [p.root, q.root]⟩) >>= fun r =>
        applyOperator .standard ":" [.node q.pool.size, r.root] r.pool := by
    simp only [Form.phrase, Phrase.build]
    rw [bind_of_eq_ok ((bind_of_eq_ok hc).trans ((bind_of_eq_ok hx).trans joined))]
  rw [starts]
  cases hy : second.build .standard q.pool with
  | error fault =>
      obtain ⟨_, hy', rfl⟩ := same.exists_error hy
      rw [bind_of_eq_error hy']
      exact rfl
  | ok r =>
      obtain ⟨r', hy', fold⟩ := same.exists_ok hy
      have withinY := Phrase.within_of_build hy'
      have more := (Phrase.extends_of_build hx).trans fold.left
      have extX := marked.trans fold.right
      have extC := (Phrase.extends_of_build hx).trans extX
      rw [bind_of_eq_ok hy', Logic.apply_colon (withinC.extends extX) (withinX.extends extX) withinY
        (fold.right _ _ (q.pool.get?_push_size _))]
      exact chooses_push ((sameTrees_of_build hc).mono more extC)
        ((sameTrees_of_build hx).mono fold.left extX) fold.trees

theorem build_front (hc : cond.build .standard .empty = .ok p)
    (hx : first.build .standard p.pool = .ok q) :
    Matches Eq (fun r parsed => Chooses r.pool p.root q.root r.root parsed)
      (second.build .standard q.pool)
      ((Form.front.phrase cond first second).build .standard .empty) := by
  have starts : (Form.front.phrase cond first second).build .standard .empty =
      second.build .standard q.pool >>= fun r =>
        applyOperator .standard "?:" [p.root, q.root, r.root] r.pool := by
    simp only [Form.phrase, Phrase.build]
    rw [bind_of_eq_ok hc, bind_of_eq_ok hx]
  rw [starts]
  cases hy : second.build .standard q.pool with
  | error fault => exact rfl
  | ok r =>
      have extX := Phrase.extends_of_build hy
      have extC := (Phrase.extends_of_build hx).trans extX
      rw [bind_of_eq_ok rfl, Logic.apply_front ((Phrase.within_of_build hc).extends extC)
        ((Phrase.within_of_build hx).extends extX) (Phrase.within_of_build hy)]
      exact chooses_push ((sameTrees_of_build hc).mono extC extC)
        ((sameTrees_of_build hx).mono extX extX) (sameTrees_of_build hy)

/-- **The spellings of a conditional are folded to the same tree**, or all of them fail with the
same fault, that of the first part that cannot be folded. -/
theorem forms_same (form form' : Form) (cond first second : Phrase .atom) :
    Matches Eq (fun p p' => SameTrees p.pool p'.pool [p.root] [p'.root])
      ((form.phrase cond first second).build .standard .empty)
      ((form'.phrase cond first second).build .standard .empty) := by
  -- Condition and first branch are folded first in all spellings, with no marker before them.
  have fails {fault : ParseFault}
      (h : cond.build .standard .empty = .error fault ∨ ∃ p, cond.build .standard .empty = .ok p ∧
        first.build .standard p.pool = .error fault) (form : Form) :
      (form.phrase cond first second).build .standard .empty = .error fault := by
    rcases h with hc | ⟨p, hc, hx⟩
    · cases form <;> simp [Form.phrase, Phrase.build, hc, bind_of_eq_error]
    · cases form <;> simp [Form.phrase, Phrase.build, hc, hx, bind_of_eq_error, bind_of_eq_ok]
  cases hc : cond.build .standard .empty with
  | error fault =>
      rw [fails (.inl hc), fails (.inl hc)]
      exact rfl
  | ok p =>
      cases hx : first.build .standard p.pool with
      | error fault =>
          rw [fails (.inr ⟨p, hc, hx⟩), fails (.inr ⟨p, hc, hx⟩)]
          exact rfl
      | ok q =>
          have folds (form : Form) :
              Matches Eq (fun r parsed => Chooses r.pool p.root q.root r.root parsed)
                (second.build .standard q.pool)
                ((form.phrase cond first second).build .standard .empty) := by
            cases form with
            | words => exact build_words hc hx
            | signs => exact build_signs hc hx
            | front => exact build_front hc hx
          cases hy : second.build .standard q.pool with
          | error fault =>
              obtain ⟨_, built, rfl⟩ := (folds form).exists_error hy
              obtain ⟨_, built', rfl⟩ := (folds form').exists_error hy
              rw [built, built']
              exact rfl
          | ok r =>
              obtain ⟨parsed, built, r₁, s₁, t₁, _, w, parts, unfolds⟩ := (folds form).exists_ok hy
              obtain ⟨parsed', built', _, _, _, _, w', parts', unfolds'⟩ :=
                (folds form').exists_ok hy
              -- Both spellings unfold the same three parts, and there is one tree for each.
              cases (parts.unique parts').1
              rw [built, built']
              exact ⟨_, w, w', unfolds, unfolds'⟩

end Standard

/-! ### Evaluating the same tree -/

namespace Semantics

variable {pool pool' : Pool} {host : Host} {env : Environment} {ρ : Nat → Nat → Prop}

/-- The standard bodies do the same for corresponding nodes. -/
theorem corresponds_standard (h : pool.Renumbers ρ pool')
    (data : ∀ key v, host.get? key = some v → v.IsData) :
    Corresponds ρ host .standard pool pool' where
  nodes := h
  uniform _ _ _ found :=
    Registry.find?_uniform h.injective found (fun _ _ _ => id) fun _ => trivial
  data := data

variable {context : Context} {c x y : Operand} {u v w : Value} {i k m n : Nat}

/-- An operand that is not to wait is prepared as the value that it has. -/
theorem exists_prepares {rest : List Operand} {args : List Arg}
    (hx : Evaluates context env x n (.ok v)) (now : ∀ y, x ≠ .skip y)
    (hrest : Prepares context env rest m (.ok args)) :
    ∃ k, Prepares context env (x :: rest) k (.ok (.value v :: args)) := by
  cases hx with
  | literal => exact ⟨m, .literal hrest⟩
  | skip _ => exact absurd rfl (now _)
  | value computed => exact ⟨_, .node computed hrest⟩

/-- A conditional has the value of one of its branches. -/
theorem exists_evaluates_conditional (found : pool.get? i = some (Standard.conditional c x y))
    (now : ∀ z, c ≠ .skip z) (hc : Evaluates ⟨host, .standard, pool⟩ env c k (.ok u))
    (hx : Evaluates ⟨host, .standard, pool⟩ env x m (.ok v))
    (hy : Evaluates ⟨host, .standard, pool⟩ env y n (.ok w)) :
    ∃ l, Evaluates ⟨host, .standard, pool⟩ env (.node i) l
      (.ok (if u.isTruthy host then v else w)) := by
  obtain ⟨l, prepared⟩ := exists_prepares hc now (.skip (.skip .nil))
  have registered : Registry.standard.find? (Standard.conditional c x y).signature =
      some ⟨⟨"if", 3⟩, .operator .prefix3, Standard.branch, some Standard.fromMarked⟩ := rfl
  have called := Logic.call_branch .standard (Registry.standard.scope host env) u ⟨x, env⟩ ⟨y, env⟩
  change _ = Except.ok (Outcome.demand (.force (if u.isTruthy host then _ else _))) at called
  cases truthy : u.isTruthy host with
  | true =>
      rw [truthy] at called
      exact ⟨_, .value (.demand found prepared registered called (.force hx))⟩
  | false =>
      rw [truthy] at called
      exact ⟨_, .value (.demand found prepared registered called (.force hy))⟩

/-- So has the conditional that evaluates both. -/
theorem exists_evaluates_strict (found : pool.get? i = some ⟨"?:NS", [c, x, y]⟩)
    (now : ∀ z ∈ [c, x, y], ∀ z', z ≠ .skip z')
    (hc : Evaluates ⟨host, .standard, pool⟩ env c k (.ok u))
    (hx : Evaluates ⟨host, .standard, pool⟩ env x m (.ok v))
    (hy : Evaluates ⟨host, .standard, pool⟩ env y n (.ok w)) :
    ∃ l, Evaluates ⟨host, .standard, pool⟩ env (.node i) l
      (.ok (if u.isTruthy host then v else w)) := by
  obtain ⟨_, last⟩ := exists_prepares hy (now y (by simp)) .nil
  obtain ⟨_, later⟩ := exists_prepares hx (now x (by simp)) last
  obtain ⟨l, prepared⟩ := exists_prepares hc (now c (by simp)) later
  have registered : Registry.standard.find? ⟨"?:NS", 3⟩ =
      some ⟨⟨"?:NS", 3⟩, .operator .prefix3, Standard.branch, none⟩ := rfl
  have called : Registry.standard.call (Registry.standard.scope host env) Standard.branch
      [.value u, .value v, .value w] = .ok (.value (if u.isTruthy host then v else w)) := by
    refine Logic.call_direct ?_
    show (if u.isTruthy host then _ else _) = _
    split <;> rfl
  exact ⟨_, .value (.value found prepared registered called)⟩

/-- An operand that has a value where it was folded first has one value wherever the
derivation is folded, and over all larger pools. -/
theorem exists_evaluates_of_build {category : Parse.Category} {d : Parse.Phrase category}
    {p : Parse.Parsed} (alone : d.build .standard .empty = .ok p)
    (data : ∀ key v, host.get? key = some v → v.IsData)
    (henv : ∀ name v, env.get? name = some v → v.IsData)
    (derived : Evaluates ⟨host, .standard, p.pool⟩ env p.root n (.ok v)) (pool : Pool) :
    ∃ q w, d.build .standard pool = .ok q ∧ ∀ larger, q.pool.Extends larger →
      Evaluates ⟨host, .standard, larger⟩ env q.root n (.ok w) := by
  obtain ⟨q, built, fold⟩ := (Standard.build_same d .empty pool).exists_ok alone
  obtain ⟨_, _, visit, -⟩ := Standard.exists_visit_of_build d alone
  obtain ⟨_, _, visit', -⟩ := Standard.exists_visit_of_build d built
  obtain ⟨_, visited, visited', unfolds, unfolds'⟩ := fold.trees
  obtain ⟨-, rfl⟩ := unfolds.unique visit.unfolds
  obtain ⟨-, rfl⟩ := unfolds'.unique visit'.unfolds
  have transfer (larger : Pool) (more : q.pool.Extends larger) :
      (Likeness.renumbered (Pool.numbering visited visited')).Injective ∧
        ∃ w, Evaluates ⟨host, .standard, larger⟩ env q.root n (.ok w) ∧
          Value.Renumbered (Pool.numbering visited visited') v w := by
    obtain ⟨renumbers, roots⟩ :=
      unfolds.renumbers (unfolds'.mono more) visit.once visit'.once
    obtain _ | ⟨root, -⟩ := roots
    obtain ⟨r, derived', results⟩ := evaluates_renumbered (corresponds_standard renumbers data)
      (Environment.alike_of_data henv) root derived
    obtain ⟨w, rfl, hw⟩ := results.exists_ok rfl
    exact ⟨renumbers.injective, w, derived', hw⟩
  obtain ⟨injective, w, -, hw⟩ := transfer q.pool (.refl q.pool)
  refine ⟨q, w, built, fun larger more => ?_⟩
  obtain ⟨-, w', derived', hw'⟩ := transfer larger more
  rwa [hw.unique injective.right w' hw']

end Semantics

namespace Parse

open Semantics (Evaluates)

/-- Both results unfold to the same tree, and on the way their nodes correspond; from
the same data they are evaluated in the same number of steps to the same value, or fail
for the same cause, but for the numbers of nodes. -/
def Interchangeable (p p' : Parsed) : Prop :=
  ∃ t v w, p.pool.Unfolds [p.root] [t] v ∧ p'.pool.Unfolds [p'.root] [t] w ∧
    p.pool.Renumbers (Pool.numbering v w) p'.pool ∧
    ∀ host : Host, (∀ key v, host.get? key = some v → v.IsData) →
      ∀ env : Environment, (∀ name v, env.get? name = some v → v.IsData) →
        ∀ s : Scheduler, Context.SameRun (Pool.numbering v w)
          (Context.evaluate ⟨host, .standard, p.pool⟩ s env p.root)
          (Context.evaluate ⟨host, .standard, p'.pool⟩ s env p'.root)

variable {d d' : Phrase .expression} {p p' : Parsed}

/-- **The same tree is evaluated alike.**  The nodes that are visited correspond one to one, since
no node is visited twice, and evaluation does not depend on their numbers. -/
theorem interchangeable_of_sameTrees (built : d.build .standard .empty = .ok p)
    (built' : d'.build .standard .empty = .ok p')
    (same : Pool.SameTrees p.pool p'.pool [p.root] [p'.root]) : Interchangeable p p' := by
  obtain ⟨ts, v, w, unfolds, unfolds'⟩ := same
  obtain ⟨t, rfl⟩ := unfolds.exists_of_singleton
  obtain ⟨_, _, visit, -⟩ := Standard.exists_visit_of_build d built
  obtain ⟨_, _, visit', -⟩ := Standard.exists_visit_of_build d' built'
  obtain ⟨-, rfl⟩ := unfolds.unique visit.unfolds
  obtain ⟨-, rfl⟩ := unfolds'.unique visit'.unfolds
  obtain ⟨renumbers, roots⟩ := unfolds.renumbers unfolds' visit.once visit'.once
  refine ⟨t, v, w, unfolds, unfolds', renumbers, fun host data env henv s => ?_⟩
  obtain _ | ⟨root, -⟩ := roots
  exact Context.evaluate_renumbered (Semantics.corresponds_standard renumbers data)
    (Semantics.corresponds_standard renumbers.flip data) henv root s

/-- The spellings of a conditional are folded to results that can take the place of each
other. -/
theorem forms_interchangeable (form form' : Form) (c x y : Phrase .atom) :
    Matches Eq Interchangeable ((form.phrase c x y).build .standard .empty)
      ((form'.phrase c x y).build .standard .empty) := by
  have same := Standard.forms_same form form' c x y
  cases built : (form.phrase c x y).build .standard .empty with
  | error fault =>
      obtain ⟨_, built', rfl⟩ := same.exists_error built
      rw [built']
      exact rfl
  | ok p =>
      obtain ⟨p', built', trees⟩ := same.exists_ok built
      rw [built']
      exact interchangeable_of_sameTrees built built' trees

/-! ### Parsing -/

/-- Parsing has used up the budget, which is smaller than the number of actions that
the tokens take. -/
def Starved (s : Scheduler) (tokens : List Token) : Prop :=
  s.budget < actions tokens + 1 ∧
    ∃ e, Registry.standard.parseWith s tokens = .error e ∧
      e.fault = .stopped (.budgetExceeded s.budget)

/-- The run of the parser on a derivation ends with its fold. -/
theorem exists_ends_of_phrase (d : Phrase .expression) :
    ∃ n result, n ≤ actions d.tokens + 1 ∧ Ends .standard n (.start d.tokens) result ∧
      Matches (fun fault e => fault = e.fault) Eq (d.build .standard .empty)
        (result.mapError ParseError.ofStop) := by
  obtain ⟨n, bound, ends⟩ := ends_of_phrase .standard d
  cases built : d.build .standard .empty with
  | ok parsed =>
      rw [built] at ends
      exact ⟨n, _, bound, ends, rfl⟩
  | error fault =>
      rw [built] at ends
      obtain ⟨snapshot, ends⟩ := ends
      exact ⟨n, _, bound, ends, rfl⟩

/-- What is folded from the derivation is parsed, unless the budget is too small. -/
theorem starved_or_matches (d : Phrase .expression) (s : Scheduler) :
    Starved s d.tokens ∨
      Matches (fun fault e => fault = e.fault) Eq (d.build .standard .empty)
        (Registry.standard.parseWith s d.tokens) := by
  obtain ⟨n, result, bound, ends, folded⟩ := exists_ends_of_phrase d
  rcases s.ends_of_runAlone (fun _ => Configuration.step .standard) () (.start d.tokens) with
    ⟨m, depth, result', within, ends', run⟩ | ⟨last, depth, leads, run⟩
  · obtain ⟨rfl, rfl⟩ := ends.unique ends'
    refine .inr ?_
    simpa only [Registry.parseWith, run] using folded
  · refine .inl ⟨?_, ⟨.stopped (.budgetExceeded s.budget), .empty⟩, ?_, rfl⟩
    · have := Schedule.lt_of_ends_of_leads ends leads
      omega
    · simp only [Registry.parseWith, run]
      rfl

/-- What matches two matching folds matches. -/
theorem matches_of_folds {R : Parsed → Parsed → Prop} {x x' : Except ParseFault Parsed}
    {answer answer' : Except ParseError Parsed}
    (h : Matches (fun fault e => fault = e.fault) Eq x answer)
    (h' : Matches (fun fault e => fault = e.fault) Eq x' answer') (same : Matches Eq R x x') :
    Matches (fun e e' => e.fault = e'.fault) R answer answer' := by
  cases x with
  | ok p =>
      obtain ⟨p', rfl, related⟩ := same.exists_ok rfl
      obtain ⟨_, rfl, rfl⟩ := h.exists_ok rfl
      obtain ⟨_, rfl, rfl⟩ := h'.exists_ok rfl
      exact related
  | error fault =>
      obtain ⟨_, rfl, rfl⟩ := same.exists_error rfl
      obtain ⟨e, rfl, fault_eq⟩ := h.exists_error rfl
      obtain ⟨e', rfl, fault_eq'⟩ := h'.exists_error rfl
      exact fault_eq.symm.trans fault_eq'

/-- The tokens are an expression that is evaluated to a value. -/
def HasValue (host : Host) (env : Environment) (tokens : List Token) : Prop :=
  ∃ s parsed s' v, Registry.standard.parseWith s tokens = .ok parsed ∧
    (Context.evaluate ⟨host, .standard, parsed.pool⟩ s' env parsed.root).1 = .ok v

/-- Tokens that have a value have it over the nodes of their own derivation. -/
theorem HasValue.exists_evaluates {host : Host} {env : Environment} {x : Phrase .atom}
    (h : HasValue host env x.tokens) : ∃ p n v, x.build .standard .empty = .ok p ∧
      Evaluates ⟨host, .standard, p.pool⟩ env p.root n (.ok v) := by
  obtain ⟨s, p, s', v, parses, evaluated⟩ := h
  obtain ⟨d, same, built⟩ := exists_build_of_parseWith .standard s parses
  obtain rfl : d = .single x := Phrase.tokens_injective same
  have found : (Context.evaluate ⟨host, .standard, p.pool⟩ s' env p.root).1 ≠
      .error (.budgetExceeded s'.budget) := by
    rw [evaluated]
    exact nofun
  obtain ⟨n, r, within, derived⟩ := Context.evaluates_of_evaluate found
  obtain ⟨seen, -⟩ := Context.evaluate_of_evaluates derived within
  rw [evaluated] at seen
  obtain rfl := Option.some.inj seen
  exact ⟨p, n, v, built, derived⟩

/-! ### Both branches at once -/

/-- The derivation of the conditional that evaluates both branches first. -/
def strictPhrase (c x y : Phrase .atom) : Phrase .expression :=
  .single (.prefix3 "?:NS" (.single c) (.single x) y)

/-- Its tokens. -/
def strictTokens (c x y : List Token) : List Token :=
  .operator "?:NS" .prefix3 :: (c ++ x ++ y)

/-- The operator that evaluates both branches has the tokens of its parts behind its name. -/
theorem tokens_strictPhrase (c x y : Phrase .atom) :
    (strictPhrase c x y).tokens = strictTokens c.tokens x.tokens y.tokens := by
  simp [strictPhrase, strictTokens, Phrase.tokens]

/-- An operator is applied to a node of its own. -/
theorem exists_root_of_applyOperator {name : String} {operands : List Operand} {pool : Pool}
    (applied : applyOperator .standard name operands pool = .ok p) : ∃ i, p.root = .node i := by
  obtain ⟨_, _, -, -, -, rfl⟩ := applyOperator_eq_ok_iff.mp applied
  exact ⟨pool.size, rfl⟩

/-- No derivation is folded to an operand that waits. -/
theorem root_ne_skip {category : Category} {d : Phrase category} {pool : Pool}
    (built : d.build .standard pool = .ok p) (x : Operand) : p.root ≠ .skip x := by
  have node {name : String} {operands : List Operand} {pool : Pool} {p : Parsed}
      (applied : applyOperator .standard name operands pool = .ok p) : p.root ≠ .skip x := by
    obtain ⟨i, same⟩ := exists_root_of_applyOperator applied
    rw [same]
    exact nofun
  induction d generalizing pool p with
  | literal text =>
      cases built
      exact nofun
  | paren inner ih => exact ih built
  | brace inner ih =>
      obtain ⟨q, hq, built⟩ := exists_of_bind_eq_ok built
      cases built
      cases q.root <;> exact nofun
  | single x ih => exact ih built
  | prefix1 name x ih =>
      obtain ⟨q, hq, built⟩ := exists_of_bind_eq_ok built
      exact node built
  | prefix3 name x y z ihx ihy ihz =>
      obtain ⟨q, hq, built⟩ := exists_of_bind_eq_ok built
      obtain ⟨q, hq, built⟩ := exists_of_bind_eq_ok built
      obtain ⟨q, hq, built⟩ := exists_of_bind_eq_ok built
      exact node built
  | infix2 x name y ihx ihy =>
      obtain ⟨q, hq, built⟩ := exists_of_bind_eq_ok built
      obtain ⟨q, hq, built⟩ := exists_of_bind_eq_ok built
      exact node built

/-- Both token lists are parsed if their budgets allow it, and the results have the
same value if theirs do. -/
def SameValue (host : Host) (env : Environment) (tokens tokens' : List Token) : Prop :=
  ∃ parsed parsed' : Parsed,
    (∀ s : Scheduler, actions tokens + 1 ≤ s.budget →
      Registry.standard.parseWith s tokens = .ok parsed) ∧
    (∀ s : Scheduler, actions tokens' + 1 ≤ s.budget →
      Registry.standard.parseWith s tokens' = .ok parsed') ∧
    ∃ enough v, ∀ s : Scheduler, enough ≤ s.budget →
      (Context.evaluate ⟨host, .standard, parsed.pool⟩ s env parsed.root).1 = .ok v ∧
        (Context.evaluate ⟨host, .standard, parsed'.pool⟩ s env parsed'.root).1 = .ok v

/-- Tokens of a derivation with this fold are parsed to it. -/
theorem parseWith_of_build {tokens : List Token} (same : d.tokens = tokens)
    (built : d.build .standard .empty = .ok p) (s : Scheduler)
    (within : actions tokens + 1 ≤ s.budget) : Registry.standard.parseWith s tokens = .ok p := by
  subst same
  have run := parseWith_of_phrase .standard s d within
  rwa [built] at run

/-- **Both branches at once come to the same value**, if the condition and the branches
have values. -/
theorem strict_agrees {host : Host} {env : Environment} {c x y : Phrase .atom}
    (data : ∀ key v, host.get? key = some v → v.IsData)
    (henv : ∀ name v, env.get? name = some v → v.IsData) (hc : HasValue host env c.tokens)
    (hx : HasValue host env x.tokens) (hy : HasValue host env y.tokens) :
    SameValue host env (Form.front.tokens c.tokens x.tokens y.tokens)
      (strictTokens c.tokens x.tokens y.tokens) := by
  obtain ⟨_, _, _, aloneC, derivedC⟩ := hc.exists_evaluates
  obtain ⟨_, _, _, aloneX, derivedX⟩ := hx.exists_evaluates
  obtain ⟨_, _, _, aloneY, derivedY⟩ := hy.exists_evaluates
  -- The values were found over the pool of each part alone; the parts of the conditional are
  -- folded one after the other.
  obtain ⟨p, u, builtC, valueC⟩ :=
    Semantics.exists_evaluates_of_build aloneC data henv derivedC .empty
  obtain ⟨q, v, builtX, valueX⟩ :=
    Semantics.exists_evaluates_of_build aloneX data henv derivedX p.pool
  obtain ⟨r, w, builtY, valueY⟩ :=
    Semantics.exists_evaluates_of_build aloneY data henv derivedY q.pool
  have extX := Phrase.extends_of_build builtY
  have extC := (Phrase.extends_of_build builtX).trans extX
  have withinC := (Phrase.within_of_build builtC).extends extC
  have withinX := (Phrase.within_of_build builtX).extends extX
  have withinY := Phrase.within_of_build builtY
  let lazy := Standard.conditional p.root q.root r.root
  let strict : Node := ⟨"?:NS", [p.root, q.root, r.root]⟩
  have built : (Form.front.phrase c x y).build .standard .empty =
      .ok ⟨.node r.pool.size, r.pool.push lazy⟩ := by
    simp only [Form.phrase, Phrase.build]
    rw [bind_of_eq_ok builtC, bind_of_eq_ok builtX,
      bind_of_eq_ok builtY, Logic.apply_front withinC withinX withinY]
  have built' : (strictPhrase c x y).build .standard .empty =
      .ok ⟨.node r.pool.size, r.pool.push strict⟩ := by
    simp only [strictPhrase, Phrase.build]
    rw [bind_of_eq_ok builtC, bind_of_eq_ok builtX,
      bind_of_eq_ok builtY]
    exact Logic.apply_plain rfl rfl (by simp [withinC, withinX, withinY])
  -- Both nodes are added to the same pool, and only their names and deferrals differ.
  have more (node : Node) := r.pool.extends_push node
  obtain ⟨m, evaluates⟩ := Semantics.exists_evaluates_conditional
    (r.pool.get?_push_size lazy) (root_ne_skip builtC)
    (valueC _ (extC.trans (more lazy))) (valueX _ (extX.trans (more lazy))) (valueY _ (more lazy))
  obtain ⟨n, evaluates'⟩ := Semantics.exists_evaluates_strict (r.pool.get?_push_size strict)
    (by simp [root_ne_skip builtC, root_ne_skip builtX, root_ne_skip builtY])
    (valueC _ (extC.trans (more strict))) (valueX _ (extX.trans (more strict)))
    (valueY _ (more strict))
  refine ⟨_, _, parseWith_of_build (Form.tokens_phrase .front c x y) built,
    parseWith_of_build (tokens_strictPhrase c x y) built', max m n,
    if u.isTruthy host then v else w, fun s enough => ?_⟩
  have seen := Context.evaluate_of_evaluates evaluates (Nat.le_trans (Nat.le_max_left m n) enough)
  have seen' :=
    Context.evaluate_of_evaluates evaluates' (Nat.le_trans (Nat.le_max_right m n) enough)
  exact ⟨seen?_eq_ok_iff.mp seen.1, seen?_eq_ok_iff.mp seen'.1⟩

/-- **All spellings of an expression agree.**  If words are written in the place of
signs, parsing takes the same number of actions and comes to the same nodes, or fails
with the same fault.  Of the spellings of a conditional with the same atoms, two that
are parsed within their budgets both fail, with the same fault, or both come to results
that can take the place of each other.  If the condition and the branches have values,
then the conditional has the value that it has if both branches are evaluated first. -/
theorem spellings_agree :
    (∀ tokens tokens' : List Token, List.Forall₂ Token.Respelled tokens tokens' →
      ∀ s : Scheduler,
        SameAnswer (Registry.standard.parseWith s tokens)
            (Registry.standard.parseWith s tokens') ∧
          Registry.standard.parseSteps s tokens = Registry.standard.parseSteps s tokens') ∧
    ∀ c x y : Phrase .atom,
      (∀ (form form' : Form) (s s' : Scheduler),
        Starved s (form.tokens c.tokens x.tokens y.tokens) ∨
          Starved s' (form'.tokens c.tokens x.tokens y.tokens) ∨
          Matches (fun e e' => e.fault = e'.fault) Interchangeable
            (Registry.standard.parseWith s (form.tokens c.tokens x.tokens y.tokens))
            (Registry.standard.parseWith s' (form'.tokens c.tokens x.tokens y.tokens))) ∧
      ∀ host : Host, (∀ key v, host.get? key = some v → v.IsData) →
        ∀ env : Environment, (∀ name v, env.get? name = some v → v.IsData) →
          HasValue host env c.tokens → HasValue host env x.tokens → HasValue host env y.tokens →
          SameValue host env (Form.front.tokens c.tokens x.tokens y.tokens)
            (strictTokens c.tokens x.tokens y.tokens) := by
  refine ⟨fun tokens tokens' => parseWith_respelled, fun c x y => ⟨fun form form' s s' => ?_, ?_⟩⟩
  · have folds := starved_or_matches (form.phrase c x y) s
    have folds' := starved_or_matches (form'.phrase c x y) s'
    rw [Form.tokens_phrase] at folds folds'
    rcases folds with starved | answer
    · exact .inl starved
    · rcases folds' with starved' | answer'
      · exact .inr (.inl starved')
      · exact .inr (.inr (matches_of_folds answer answer' (forms_interchangeable form form' c x y)))
  · exact fun host data env henv => strict_agrees data henv

/-- A word in the place of a sign; and a conditional of three literals, which have
values. -/
theorem spellings_agree_literals :
    (List.Forall₂ Token.Respelled
        [.literal "a", .operator "&&" .infix2, .literal "b"]
        [.literal "a", .operator "and" .infix2, .literal "b"] ∧
      SameAnswer
        (Registry.standard.parseWith .standard
          [.literal "a", .operator "&&" .infix2, .literal "b"])
        (Registry.standard.parseWith .standard
          [.literal "a", .operator "and" .infix2, .literal "b"])) ∧
    SameValue (Record.toHost .empty) .empty
      (Form.front.tokens [.literal "a"] [.literal "b"] [.literal "c"])
      (strictTokens [.literal "a"] [.literal "b"] [.literal "c"]) := by
  have respelled : List.Forall₂ Token.Respelled
      [.literal "a", .operator "&&" .infix2, .literal "b"]
      [.literal "a", .operator "and" .infix2, .literal "b"] :=
    .cons (.same _) (.cons (.renamed .conjunction) (.cons (.same _) .nil))
  have value (text : String) : HasValue (Record.toHost .empty) .empty [.literal text] := by
    refine ⟨.standard, ⟨.literal text, .empty⟩, .standard, .str text, ?_, ?_⟩
    · have within : 2 ≤ Scheduler.standard.budget := by decide
      exact parseWith_of_build (d := .single (.literal text)) rfl rfl _ within
    · exact seen?_eq_ok_iff.mp (Context.evaluate_of_evaluates .literal (by decide)).1
  refine ⟨⟨respelled, (spellings_agree.1 _ _ respelled .standard).1⟩, ?_⟩
  exact (spellings_agree.2 (.literal "a") (.literal "b") (.literal "c")).2 (Record.toHost .empty)
    (by rintro key v ⟨⟩) .empty (by rintro name v ⟨⟩) (value "a") (value "b") (value "c")

end Parse

end RuleEngine
