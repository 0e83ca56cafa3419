import RuleEngine.Schedule.Scheduler

/-!
# Configuration of an engine

## Main definitions

* `Config` - the budgets of parsing and evaluation, and the batch size of both.
* `ConfigError`, `Config.fault?` - what may be wrong with a configuration.

## Design notes

**Checked once.**  An engine is made of a configuration without a fault, so nothing that
runs later has to ask whether a budget is zero.  The checks stand in a fixed order, and
only the first fault is reported.

**Two budgets, one batch size.**  Parsing and evaluation are separate runs, each with a
budget of its own.  The batch size is a matter of how steps are grouped and has no
influence on results; two units are the least that can be grouped.
-/

namespace RuleEngine

open Schedule (Scheduler)

/-- The limits within which an engine works. -/
structure Config where
  /-- Steps that an evaluation may take. -/
  stepBudget : Nat := 100000
  /-- Actions that parsing may take. -/
  parseBudget : Nat := 100000
  /-- Units in one batch of the scheduler. -/
  batchSize : Nat := Scheduler.defaultBatch
  deriving DecidableEq, Repr

/-- What may be wrong with a configuration. -/
inductive ConfigError
  /-- Batches have to be of two units at least. -/
  | batchSize (size : Nat)
  /-- An evaluation has to be allowed a step. -/
  | zeroStepBudget
  /-- Parsing has to be allowed an action. -/
  | zeroParseBudget
  deriving DecidableEq, Repr

/-- The wording of the error. -/
def ConfigError.message : ConfigError → String
  | batchSize size => "batch size must be at least 2, got " ++ toString size
  | zeroStepBudget => "step budget must be greater than zero"
  | zeroParseBudget => "parse budget must be greater than zero"

namespace Config

/-- What is wrong with a configuration; the batch size counts first. -/
def fault? (config : Config) : Option ConfigError :=
  if config.batchSize < 2 then some (.batchSize config.batchSize)
  else if config.stepBudget = 0 then some .zeroStepBudget
  else if config.parseBudget = 0 then some .zeroParseBudget
  else none

/-- The configured batch size with any budget. -/
def scheduler (config : Config) (budget : Nat) : Scheduler :=
  .new config.batchSize budget

end Config

end RuleEngine
