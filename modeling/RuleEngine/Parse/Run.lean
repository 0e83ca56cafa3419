import RuleEngine.Parse.Configuration
import RuleEngine.Schedule.Scheduler

/-!
# From tokens to nodes

Parsing as a run of the scheduler: a single task whose steps are the actions of
the parser.

## Main definitions

* `Registry.parseWith` - parsing with a given scheduler.
* `Registry.parse` - parsing with a given budget.

## Design notes

**A task that calls nothing.**  The parser has no use for called tasks, so it runs
alone, and its routine carries no information.  Budgets and batches are those of any
other task, which is why all that is known of runs in general holds of parsing.

**The scheduler's errors are parse errors.**  The end of the budget is reported in the
same form as a fault of the tokens.  It comes without a snapshot, since no action has
failed.
-/

namespace RuleEngine

open Schedule (Scheduler)

/-- Parse tokens with the given batch size and budget. -/
def Registry.parseWith (registry : Registry) (scheduler : Scheduler) (tokens : List Token) :
    Except ParseError Parse.Parsed :=
  let (result, _) := scheduler.runAlone (fun (_ : Unit) => Parse.Configuration.step registry) ()
    (.start tokens)
  result.mapError ParseError.ofStop

/-- Parse tokens in at most `budget` actions. -/
def Registry.parse (registry : Registry) (tokens : List Token) (budget : Nat) :
    Except ParseError Parse.Parsed :=
  registry.parseWith (.new Scheduler.defaultBatch budget) tokens

end RuleEngine
