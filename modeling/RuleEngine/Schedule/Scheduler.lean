import RuleEngine.Schedule.Batch

/-!
# Schedulers

A `Scheduler` is the choice of a batch size and a step budget.  It runs either
one task that may not call others, or a stack of tasks.

## Main definitions

* `Scheduler.new`, `Scheduler.standard` - the ways to choose.
* `Scheduler.runAlone` - one task alone.
* `Scheduler.runStack` - a stack of tasks.

Both give the counters of the run whether it succeeds or not.

## Design notes

**One at a time or a stack.**  A task that runs alone has no receiver for results, and
so it must not call: the first call ends the run with a fault.  In a stack of tasks, a
result goes through the receiver that the finished task brings along, or else through
the common one; and the task that was given last runs first.

**Batches of two at least.**  A smaller size is taken for two.  Batches of rising size
are run one after the other, so a long run has few of them nested, and the depth is part
of the counters.

**The budget is a fault of the run.**  A run that exceeds its budget ends with a fault
of the scheduler, which cannot be mistaken for an error that a task has raised.
-/

namespace RuleEngine.Schedule

variable {κ σ τ ε : Type}

/-- A batch size of at least two and a step budget. -/
structure Scheduler where
  /-- Units in one batch. -/
  batch : Nat
  /-- Steps that a run may take. -/
  budget : Nat
  /-- Smaller batches would not make longer runs of fewer levels. -/
  two_le_batch : 2 ≤ batch
  deriving DecidableEq, Repr

namespace Scheduler

/-- The usual number of units in one batch. -/
def defaultBatch : Nat := 4

/-- The largest count of 64 bits, for runs that are not meant to be limited. -/
def unlimited : Nat := UInt64.size - 1

/-- A scheduler with the given step budget; batch sizes below two are raised to
two. -/
def new (batch budget : Nat) : Scheduler :=
  ⟨max batch 2, budget, Nat.le_max_right batch 2⟩

/-- Batches of the usual size and no limit to speak of. -/
def standard : Scheduler :=
  new defaultBatch unlimited

theorem batch_pos (s : Scheduler) : 0 < s.batch :=
  Nat.lt_of_lt_of_le (by decide) s.two_le_batch

/-- One task alone, with the counters of its run. -/
def runAlone (s : Scheduler) (program : Program κ σ τ ε) (routine : κ) (state : σ) :
    Except (Stop ε) τ × Stats :=
  runLevels ⟨program, s.budget, none⟩ s.batch s.batch_pos 0 (.start [.new routine state])

/-- A stack of tasks, innermost last, with the counters of its run.  Results
enter the callers' states through `receive`, unless the finished task has a
receiver of its own. -/
def runStack (s : Scheduler) (program : Program κ σ τ ε) (receive : σ → τ → Except ε σ)
    (tasks : List (Task κ σ τ ε)) : Except (Stop ε) τ × Stats :=
  match tasks with
  | [] => (.error (.fault .noTask), ⟨0, 0⟩)
  | _ :: _ =>
    runLevels ⟨program, s.budget, some receive⟩ s.batch s.batch_pos 0 (.start tasks.reverse)

end Scheduler

end RuleEngine.Schedule
