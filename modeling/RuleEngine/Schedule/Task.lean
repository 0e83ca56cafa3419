/-!
# Resumable tasks

A computation that must not grow the native stack is written as a state
machine.  A step looks at the machine's state and says how it goes on; a `Task`
is the name of a step function together with a state that it has reached.

## Main definitions

* `Task` - a routine, its current state, and optionally the way in which its
  result enters the state of the task that called it.
* `Step` - what one step of a task comes to: it proceeds with a new state, it
  suspends and calls another task, it is done, or it fails.
* `Program` - the step function of each routine.
* `Fault` - the three reasons for which the scheduler itself ends a run.
* `Stop` - why a run ended without a result: a fault, or an error that some
  step or receiver raised.

## Design notes

**Routines are named.**  A step may call a task that runs the very routine that
is stepping, and so may that task, without end.  A task that held its step
function itself would then contain itself, which no inductive type allows; so a
task holds the name of its routine, of any type `κ`, and a `Program` says what
each name stands for.

**Faults and raised errors are kept apart** in `Stop`: a step function can never
imitate the exhaustion of the budget.
-/

namespace RuleEngine.Schedule

/-- The reasons for which the scheduler itself ends a run. -/
inductive Fault
  /-- All steps of the budget were taken and the run was not over. -/
  | budgetExceeded (budget : Nat)
  /-- A task that runs alone called another one. -/
  | unexpectedCall
  /-- There was no task to run. -/
  | noTask
  deriving DecidableEq, Repr

/-- The wording of a fault. -/
def Fault.message : Fault → String
  | budgetExceeded budget => "step budget of " ++ toString budget ++ " exceeded"
  | unexpectedCall => "single-task run received a nested call"
  | noTask => "no task to run"

/-- Why a run ended without a result. -/
inductive Stop (ε : Type)
  /-- The scheduler ended the run. -/
  | fault (fault : Fault)
  /-- A step or a receiver failed with this error. -/
  | raised (error : ε)
  deriving DecidableEq, Repr

/-- A routine in some state. -/
structure Task (κ σ τ ε : Type) where
  /-- Which step function the task runs. -/
  routine : κ
  /-- The state reached so far. -/
  state : σ
  /-- How the task's result enters the state of its caller; `none` for the
  common way of the run. -/
  receiver : Option (σ → τ → Except ε σ)

/-- What one step of a task comes to. -/
inductive Step (κ σ τ ε : Type)
  /-- Go on with the new state. -/
  | proceed (state : σ)
  /-- Suspend in `state` and run `inner` to its end first. -/
  | call (state : σ) (inner : Task κ σ τ ε)
  /-- Finished with a result. -/
  | done (result : τ)
  /-- Failed; the whole run fails with this error. -/
  | fail (error : ε)

/-- The step function of each routine. -/
abbrev Program (κ σ τ ε : Type) := κ → σ → Step κ σ τ ε

namespace Task

variable {κ σ τ ε : Type}

/-- A task whose result enters its caller in the common way of the run. -/
def new (routine : κ) (state : σ) : Task κ σ τ ε :=
  ⟨routine, state, none⟩

/-- The task with its own way into the state of its caller. -/
def withReceiver (task : Task κ σ τ ε) (receiver : σ → τ → Except ε σ) : Task κ σ τ ε :=
  { task with receiver := some receiver }

end Task

end RuleEngine.Schedule
