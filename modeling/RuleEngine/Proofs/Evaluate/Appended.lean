import RuleEngine.Proofs.Evaluate.Locality
import RuleEngine.Proofs.Standard.Operands

/-!
# Appended nodes

Nodes are appended to a pool whenever a longer text is compiled around a shorter one.
What was compiled before is not affected: an evaluation in which nothing leads out of
the old pool takes the same steps over the new one.  Here this is said of the standard
registry, whose bodies make no operands of their own.  The appended nodes may be any,
also such that refer to each other in a circle or to no node at all.

The value of such an evaluation does not lead out of the old pool either.  So it may be
stored in the data of the host, or bound to a name, and the next evaluation is again one
that appended nodes do not affect.

## Main definitions

* `Pool.append` - a pool with more nodes behind its own.

## Main statements

* `Evaluate.Confined.over_of_evaluate` - values do not lead out of the pool.
* `Evaluate.evaluate_append` - evaluations are not affected by appended nodes.
-/

namespace RuleEngine

/-- The pool with more nodes behind its own. -/
def Pool.append (pool : Pool) (more : Array Node) : Pool :=
  ⟨pool.nodes ++ more⟩

/-- To append nodes is to extend a pool: the nodes that were there keep their indices. -/
theorem Pool.extends_append (pool : Pool) (more : Array Node) :
    pool.Extends (pool.append more) := by
  intro i node found
  have inside : i < pool.nodes.size := lt_of_get? found
  rw [get?, append, Array.getElem?_append_left inside]
  exact found

namespace Evaluate

open Semantics (Task task)

variable {context : Context} {env : Environment} {tasks : List Task} {v : Value}

/-- The value with which a run ends is that of a frame, which does not lead out of the
pool. -/
theorem Confined.over_of_turn (confined : Confined context)
    (h : ∀ t ∈ tasks, TaskLocal context.pool t)
    (ending : Schedule.turn (program context) (some Frame.receive) tasks =
      .ending (.ok v)) : v.Over (Operand.Within context.pool) := by
  obtain ⟨t, rfl, done⟩ := Schedule.exists_of_turn_eq_ending_ok ending
  have action := local_program confined (h t List.mem_cons_self).state t.routine
  rw [done] at action
  exact action

/-- **The value of an evaluation does not lead out of the pool**, if nothing does that
the evaluation is given. -/
theorem Confined.over_of_evaluate (confined : Confined context) (s : Schedule.Scheduler)
    {root : Operand} (henv : Environment.Over (Operand.Within context.pool) env)
    (evaluated : (context.evaluate s env root).1 = .ok v) :
    v.Over (Operand.Within context.pool) := by
  have begun := Frame.local_start confined.pool henv root
  cases started : Frame.start context.pool env root with
  | error e =>
      rw [Context.evaluate_of_start_eq_error s started] at evaluated
      cases evaluated
  | ok frame =>
      rw [started] at begun
      rcases Context.evaluate_of_start_eq_ok s started with
        ⟨n, depth, result, -, ends, run⟩ | ⟨last, depth, -, run⟩
      · rw [run] at evaluated
        cases result with
        | error why => cases evaluated
        | ok w =>
            cases evaluated
            have start : ∀ t ∈ [task frame none], TaskLocal context.pool t :=
              List.forall_mem_singleton.mpr (taskLocal_new begun)
            obtain ⟨last, hlast, ending⟩ := ends.exists_last (fun _ _ => local_turn confined) start
            exact confined.over_of_turn hlast ending
      · rw [run] at evaluated
        cases evaluated

/-- **Appended nodes do not affect evaluations.**  Let a pool be without cycles, and let
the operand and all bodies of sub-expressions in the data of the host and in the
environment lead into it.  With nodes appended to the pool, the evaluation has the same
value or the same error at the same place, after as many steps in as many nested
batches; and the bodies of sub-expressions in the value lead into the pool again. -/
theorem evaluate_append {pool : Pool} (acyclic : pool.Acyclic) (more : Array Node) {host : Host}
    (hhost : host.Over (Operand.Within pool))
    (henv : Environment.Over (Operand.Within pool) env) {root : Operand}
    (hroot : root.Within pool) (s : Schedule.Scheduler) :
    Context.evaluate ⟨host, .standard, pool.append more⟩ s env root =
        Context.evaluate ⟨host, .standard, pool⟩ s env root ∧
      ∀ v, (Context.evaluate ⟨host, .standard, pool⟩ s env root).1 = .ok v →
        v.Over (Operand.Within pool) := by
  have confined : Confined ⟨host, .standard, pool⟩ := ⟨acyclic, Registry.keeps_standard, hhost⟩
  refine ⟨(confined.evaluate (pool.extends_append more) s hroot henv).symm, fun v evaluated => ?_⟩
  exact confined.over_of_evaluate s henv evaluated

/-- The nodes of `{v 'x'}` and of `*'k' apply 'a'`, for a host that has a sub-expression
with the first of them as its body, and a node that refers to itself. -/
theorem evaluate_append_cycle :
    let pool : Pool := ⟨#[⟨"v", [.literal "x"]⟩, ⟨"*", [.literal "k"]⟩,
      ⟨"apply", [.node 1, .literal "a"]⟩]⟩
    let host := Record.toHost (Dictionary.empty.insert "k" (.subExpr "x" (.node 0)))
    pool.Acyclic ∧ host.Over (Operand.Within pool) ∧
      Environment.Over (Operand.Within pool) .empty ∧ Operand.Within pool (.node 2) ∧
      ∀ s, Context.evaluate ⟨host, .standard, pool.append #[⟨"!", [.node 3]⟩]⟩ s .empty (.node 2) =
        Context.evaluate ⟨host, .standard, pool⟩ s .empty (.node 2) := by
  intro pool host
  have acyclic : pool.Acyclic :=
    ((Pool.acyclic_empty.push (by decide)).push (by decide)).push (by decide)
  have first : Operand.Within pool (.node 0) := by
    intro i same
    cases same
    decide
  have henv : Environment.Over (Operand.Within pool) .empty := fun _ _ found => by cases found
  have hhost : host.Over (Operand.Within pool) :=
    Environment.over_insert henv "k" (.subExpr first)
  have hroot : Operand.Within pool (.node 2) := by
    intro i same
    cases same
    decide
  exact ⟨acyclic, hhost, henv, hroot,
    fun s => (evaluate_append acyclic _ hhost henv hroot s).1⟩

end Evaluate

end RuleEngine
