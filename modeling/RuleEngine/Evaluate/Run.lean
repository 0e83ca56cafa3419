import RuleEngine.Evaluate.Step
import RuleEngine.Schedule.Scheduler

/-!
# Evaluation

Evaluation as a run of the scheduler, which begins with the frame of one
operand.

## Main definitions

* `Context.evaluate` - the value of an operand, or the error, with the counters
  of the run.

An operand with which no frame can begin fails before the first step.

## Design notes

**The root need not be a node.**  A literal is a frame that has its value already and
takes one step to hand it over.  A braced operand is no expression, and an index without
a node is a fault of whoever made it; neither has a frame.

**Counters in any case.**  The steps and the depth of batches are reported for failures,
too.  So it can be told how much of a budget an expression has used, whatever has become
of it.

**The scheduler is a parameter.**  A run with a given budget and a run with the
configured one are the same function, with different schedulers.
-/

namespace RuleEngine

open Schedule (Scheduler Stats Task)

/-- The value of an operand in an environment. -/
def Context.evaluate (context : Context) (scheduler : Scheduler) (env : Environment)
    (root : Operand) : Except EvalError Value × Stats :=
  match Evaluate.Frame.start context.pool env root with
  | .error e => (.error e, ⟨0, 0⟩)
  | .ok frame =>
    let (result, stats) := scheduler.runStack (Evaluate.program context) Evaluate.Frame.receive
      [Task.new .operand frame]
    (result.mapError EvalError.ofStop, stats)

end RuleEngine
