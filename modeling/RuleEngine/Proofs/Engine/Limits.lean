import RuleEngine.Engine.Basic
import RuleEngine.Proofs.Evaluate.Adequacy
import RuleEngine.Proofs.Schedule.Nesting

/-!
# The limits of an engine

An engine is configured with a batch size and with budgets.  The batch size has no
say in anything but the depth to which batches are nested.  A budget has a say in
one thing: whether a run is over before it is used up.

The first half compares runs in batches with a plain loop of the same turns.  The second
half compares runs under different budgets, which take the same turns as long as both
have any left.  For an evaluation there is one more thing to see to: its result must show
which error it is, since an evaluation that failed with an error that looks like the end
of a budget could not be told from one that needs a larger budget.  No evaluation does:
the errors that steps raise have causes of their own.

## Main definitions

* `LoopsTo` - a run in batches comes to what the loop without batches comes to.
* `Engine.withBatchSize`, `Expression.withBatchSize` - all else being equal.

## Main statements

* `Context.exactBudget` - an evaluation has an exact budget; no error that it raises
  looks like the end of one.
* `Expression.run_eq_ok`, `Expression.run_exceeds` - what a derivation of the root, or
  the lack of one, says about runs within a budget.
* `batchSize_invisible` - runs, compilation and evaluation do not depend on the
  batch size.
* `budget_exact` - runs and evaluation need a budget of exactly the steps that they
  take.
-/

namespace RuleEngine

namespace Schedule

variable {κ σ τ ε : Type} {program : Program κ σ τ ε} {receive : σ → τ → Except ε σ}

/-- A run in batches comes to what the loop comes to. -/
structure LoopsTo (rules : Rules κ σ τ ε) (batch : Nat) (start : State κ σ τ ε)
    (run : Except (Stop ε) τ × Stats) : Prop where
  /-- It has the result of the loop, after as many steps. -/
  same : outcome run = outcome (runSteps rules start)
  /-- One of its batches ends it, and each one before has used up some of the budget. -/
  batches : ∃ count ≤ rules.budget - start.steps + 1,
    runBatches rules batch count 0 start = .ended run.1 run.2

/-- What batches of batches come to is what the plain loop comes to.  Its termination is no
assumption: each attempt takes one of the steps that the budget allows. -/
theorem loopsTo_runLevels (rules : Rules κ σ τ ε) {batch : Nat} (hb : 0 < batch)
    (start : State κ σ τ ε) : LoopsTo rules batch start (runLevels rules batch hb 0 start) :=
  ⟨outcome_runLevels rules hb 0 start, exists_runBatches rules hb 0 start⟩

namespace Scheduler

variable (s s' : Scheduler)

/-- A stack of tasks that is not empty comes to what the loop comes to.  The stack is turned over
first, so that the task that was given last is on top. -/
theorem loopsTo_runStack {tasks : List (Task κ σ τ ε)} (some_task : tasks ≠ []) :
    LoopsTo ⟨program, s.budget, some receive⟩ s.batch (.start tasks.reverse)
      (s.runStack program receive tasks) := by
  rw [runStack_eq_runLevels s some_task]
  exact loopsTo_runLevels _ s.batch_pos _

/-- A task that runs alone comes to what the loop comes to, without a receiver: it must not call. -/
theorem loopsTo_runAlone (routine : κ) (state : σ) :
    LoopsTo ⟨program, s.budget, none⟩ s.batch (.start [.new routine state])
      (s.runAlone program routine state) :=
  loopsTo_runLevels _ s.batch_pos _

variable {s s'}

/-- Schedulers with the same budget come to the same result in as many steps, whatever their
batches are.  The depth of batches is no part of an outcome. -/
theorem outcome_runStack_congr (budgets : s.budget = s'.budget) {tasks : List (Task κ σ τ ε)}
    (some_task : tasks ≠ []) :
    outcome (s.runStack program receive tasks) = outcome (s'.runStack program receive tasks) := by
  rw [(loopsTo_runStack s some_task).same, (loopsTo_runStack s' some_task).same, budgets]

theorem outcome_runAlone_congr (budgets : s.budget = s'.budget) (routine : κ) (state : σ) :
    outcome (s.runAlone program routine state) = outcome (s'.runAlone program routine state) := by
  rw [(loopsTo_runAlone s routine state).same, (loopsTo_runAlone s' routine state).same, budgets]

end Scheduler

/-- A stack of tasks has an exact budget: either it ends in some number of steps, under each
budget that allows them and under no other, or it exceeds every budget. -/
theorem exactBudget_runStack (program : Program κ σ τ ε) (receive : σ → τ → Except ε σ)
    {tasks : List (Task κ σ τ ε)} (some_task : tasks ≠ []) (batch : Nat) :
    ExactBudget (fun budget => .fault (.budgetExceeded budget)) fun budget =>
      outcome ((Scheduler.new batch budget).runStack program receive tasks) := by
  simp only [Scheduler.runStack_eq_runLevels _ some_task]
  exact exactBudget_runLevels program (some receive) (Scheduler.new batch 0).batch_pos
    tasks.reverse

/-- A task that runs alone has an exact budget, in the same sense. -/
theorem exactBudget_runAlone (program : Program κ σ τ ε) (routine : κ) (state : σ)
    (batch : Nat) :
    ExactBudget (fun budget => .fault (.budgetExceeded budget)) fun budget =>
      outcome ((Scheduler.new batch budget).runAlone program routine state) :=
  exactBudget_runLevels program none (Scheduler.new batch 0).batch_pos [.new routine state]

end Schedule

open Schedule

/-! ### Evaluation as a run -/

/-- The result of an evaluation and the number of its steps; the depth of its batches
is left out. -/
def Report.outcome (report : Report) : Except EvalError Value × Nat :=
  (report.result, report.stats.steps)

section Evaluation

variable (context : Context) {env : Environment} {root : Operand}

/-- The outcome of an evaluation with some scheduler. -/
def Context.outcome (scheduler : Scheduler) (env : Environment) (root : Operand) :
    Except EvalError Value × Nat :=
  ((context.evaluate scheduler env root).1, (context.evaluate scheduler env root).2.steps)

/-- An evaluation that starts has the outcome of the run of its frame, with the errors of the run
turned into errors of evaluation. -/
theorem Context.outcome_of_start_eq_ok {frame : Evaluate.Frame} (scheduler : Scheduler)
    (start : Evaluate.Frame.start context.pool env root = .ok frame) :
    context.outcome scheduler env root =
      let run := Schedule.outcome (scheduler.runStack (Evaluate.program context)
        Evaluate.Frame.receive [Task.new .operand frame])
      (run.1.mapError EvalError.ofStop, run.2) := by
  simp only [outcome, evaluate, start]
  rfl

/-- An evaluation whose root cannot be looked up fails before there is anything to run, in no
steps. -/
theorem Context.outcome_of_start_eq_error {e : EvalError} (scheduler : Scheduler)
    (start : Evaluate.Frame.start context.pool env root = .error e) :
    context.outcome scheduler env root = (.error e, 0) := by
  rw [outcome, evaluate_of_start_eq_error scheduler start]

/-- The outcome of an evaluation depends on the scheduler through its budget alone. -/
theorem Context.outcome_congr {s s' : Scheduler} (budgets : s.budget = s'.budget) :
    context.outcome s env root = context.outcome s' env root := by
  cases start : Evaluate.Frame.start context.pool env root with
  | error e => rw [outcome_of_start_eq_error _ s start, outcome_of_start_eq_error _ s' start]
  | ok frame =>
      rw [outcome_of_start_eq_ok _ s start, outcome_of_start_eq_ok _ s' start,
        Scheduler.outcome_runStack_congr budgets (List.cons_ne_nil _ _)]

/-- An error that a run raises has a cause, which the end of a budget has not.  So the two can be
told apart in the result of an evaluation. -/
theorem Context.cause_of_ends {frame : Evaluate.Frame} {n : Nat} {e : EvalError}
    (start : Evaluate.Frame.start context.pool env root = .ok frame)
    (ends : Semantics.Ends context n [Semantics.task frame none] (.error (.raised e))) :
    ∃ cause, e.cause? = some cause := by
  obtain ⟨m, r, derivation⟩ :=
    Semantics.evaluates_of_ends (fun m _ => Semantics.derivable context m) start ends
  have life := Semantics.resolves_start derivation
  rw [start] at life
  obtain ⟨result, ends', shown⟩ := Semantics.Resolves.ends life
  obtain ⟨-, rfl⟩ := ends.unique ends'
  cases r with
  | ok v => cases shown
  | error cause =>
      obtain ⟨e', caused, same⟩ := shown
      cases same
      exact ⟨cause, caused⟩

/-- So has the error of an evaluation that does not start. -/
theorem Context.cause_of_start_eq_error {e : EvalError}
    (start : Evaluate.Frame.start context.pool env root = .error e) :
    ∃ cause, e.cause? = some cause := by
  obtain ⟨n, r, derivation⟩ := Semantics.evaluates_of_start_eq_error start
  have life := Semantics.resolves_start derivation
  rw [start] at life
  obtain ⟨-, cause, caused, -⟩ := life
  exact ⟨cause, caused⟩

section Frames

variable {frame : Evaluate.Frame} {n : Nat} {result : Except (Stop EvalError) Value}
variable (start : Evaluate.Frame.start context.pool env root = .ok frame)

include start

/-- A run that ends within the budget gives the evaluation its result and its number of steps. -/
theorem Context.outcome_of_ends (scheduler : Scheduler)
    (ends : Semantics.Ends context n [Semantics.task frame none] result)
    (within : n ≤ scheduler.budget) :
    context.outcome scheduler env root = (result.mapError EvalError.ofStop, n) := by
  rw [← Semantics.new_operand_eq_task start] at ends
  have run : Schedule.outcome (scheduler.runStack (Evaluate.program context)
      Evaluate.Frame.receive [Task.new .operand frame]) = (result, n) :=
    outcome_runStack_of_ends scheduler (List.cons_ne_nil _ _) ends within
  rw [outcome_of_start_eq_ok context scheduler start, run]

/-- A run that still goes on after all the steps of the budget has used it up, and the error names
the budget. -/
theorem Context.outcome_of_leads (scheduler : Scheduler) {last : List Semantics.Task}
    (leads : Semantics.Leads context scheduler.budget [Semantics.task frame none] last) :
    context.outcome scheduler env root =
      (.error (.budgetExceeded scheduler.budget), scheduler.budget) := by
  rw [← Semantics.new_operand_eq_task start] at leads
  obtain ⟨depth, run⟩ :=
    scheduler.runStack_of_leads
      (List.cons_ne_nil (Task.new Evaluate.Routine.operand frame) []) leads
  rw [outcome_of_start_eq_ok context scheduler start, run]
  rfl

/-- The end of a run is not taken for the end of its budget.  This is the point of keeping causes
in errors, and without it a budget could not be called exact. -/
theorem Context.mapError_ne_budgetExceeded
    (ends : Semantics.Ends context n [Semantics.task frame none] result) (b : Nat) :
    result.mapError EvalError.ofStop ≠ .error (.budgetExceeded b) := by
  intro same
  cases result with
  | ok v => cases same
  | error why =>
      cases why with
      | raised e =>
          cases same
          obtain ⟨cause, caused⟩ := context.cause_of_ends start ends
          cases caused
      | fault fault =>
          cases fault with
          | budgetExceeded b' => exact ends.ne_budgetExceeded b' rfl
          | unexpectedCall => cases same
          | noTask => cases same

end Frames

/-- **An evaluation has an exact budget.**  Either it ends in some number of steps, and then in
the same way under each budget that allows them, or it exceeds every budget; and a result tells
which of the two it is. -/
theorem Context.exactBudget (batch : Nat) (env : Environment) (root : Operand) :
    ExactBudget .budgetExceeded fun budget => context.outcome (.new batch budget) env root := by
  cases start : Evaluate.Frame.start context.pool env root with
  | error e =>
      simp only [outcome_of_start_eq_error context _ start]
      obtain ⟨cause, caused⟩ := context.cause_of_start_eq_error start
      refine .of_ended ?_ (fun budget _ => rfl) fun budget less => absurd less (Nat.not_lt_zero _)
      rintro b ⟨⟩
      cases caused
  | ok frame =>
      by_cases ended : ∃ n result, Semantics.Ends context n [Semantics.task frame none] result
      · obtain ⟨n, result, ends⟩ := ended
        refine .of_ended (n := n) (context.mapError_ne_budgetExceeded start ends) ?_ ?_
        · exact fun budget allowed => context.outcome_of_ends start (.new batch budget) ends allowed
        · intro budget less
          obtain ⟨last, leads⟩ := ends.leads_of_lt less
          exact context.outcome_of_leads start (.new batch budget) leads
      · refine .of_endless fun budget => ?_
        rcases ends_or_leads (Evaluate.program context)
            (some Evaluate.Frame.receive) budget [Semantics.task frame none] with
          ⟨n, result, -, ends⟩ | ⟨last, leads⟩
        · exact absurd ⟨n, result, ends⟩ ended
        · exact context.outcome_of_leads start (.new batch budget) leads

end Evaluation

/-! ### Batch sizes -/

section Batches

variable {s s' : Scheduler}

/-- Parsing depends on the scheduler through its budget alone.  The depth of batches is dropped
here, since the result of parsing does not mention it. -/
theorem Registry.parseWith_congr (registry : Registry) (budgets : s.budget = s'.budget)
    (tokens : List Token) : registry.parseWith s tokens = registry.parseWith s' tokens := by
  have results : outcome (s.runAlone (fun (_ : Unit) => Parse.Configuration.step registry) ()
      (.start tokens)) = _ := Scheduler.outcome_runAlone_congr budgets () _
  exact congrArg (fun run => run.1.mapError ParseError.ofStop) results

end Batches

/-- Another batch size leaves a configuration valid, as long as it is two or more. -/
theorem Config.fault?_batchSize {config : Config} (valid : config.fault? = none) {batch : Nat}
    (two_le : 2 ≤ batch) : { config with batchSize := batch }.fault? = none := by
  simp only [fault?, Nat.not_lt.mpr two_le, if_false]
  unfold fault? at valid
  split at valid
  · cases valid
  · exact valid

/-- The engine with batches of another size. -/
def Engine.withBatchSize (engine : Engine) (batch : Nat) (two_le : 2 ≤ batch) : Engine where
  registry := engine.registry
  config := { engine.config with batchSize := batch }
  valid := Config.fault?_batchSize engine.valid two_le

/-- The expression as an engine with batches of another size would compile it. -/
def Expression.withBatchSize (e : Expression) (batch : Nat) : Expression :=
  { e with config := { e.config with batchSize := batch } }

/-- A text compiles to the same expression under another batch size, but for the batch size that
the expression keeps for its own runs.  Errors are the same. -/
theorem Engine.compile_withBatchSize (engine : Engine) {batch : Nat} (two_le : 2 ≤ batch)
    (text : String) :
    (engine.withBatchSize batch two_le).compile text =
      (engine.compile text).map (·.withBatchSize batch) := by
  have tokenized : (engine.withBatchSize batch two_le).tokenize text = engine.tokenize text := rfl
  have parsed (tokens : List Token) :
      (engine.withBatchSize batch two_le).registry.parseWith
        ((engine.withBatchSize batch two_le).config.scheduler engine.config.parseBudget) tokens =
      engine.registry.parseWith (engine.config.scheduler engine.config.parseBudget) tokens := by
    refine engine.registry.parseWith_congr ?_ tokens
    rfl
  rw [compile, compile, tokenized]
  cases engine.tokenize text with
  | error e => rfl
  | ok tokens =>
      dsimp only
      rw [show (engine.withBatchSize batch two_le).config.parseBudget =
        engine.config.parseBudget from rfl, parsed]
      cases engine.registry.parseWith _ tokens <;> rfl

/-- An expression with another batch size has the same outcome in each run. -/
theorem Expression.outcome_withBatchSize (e : Expression) (batch : Nat) (host : Host)
    (env : Environment) (budget : Nat) :
    ((e.withBatchSize batch).run host env budget).outcome = (e.run host env budget).outcome :=
  Context.outcome_congr ⟨host, e.registry, e.pool⟩ rfl

/-- **Batches cannot be seen.**  Stacks of tasks, and tasks that run alone, come to what one step
after another comes to, whatever the batch size is; a size below two counts as two.  So a text
compiles to the same expression with batches of any size, but for the batch size that it keeps,
and the expression has the same outcome. -/
theorem batchSize_invisible :
    (∀ {κ σ τ ε : Type} (program : Program κ σ τ ε) (receive : σ → τ → Except ε σ)
      (tasks : List (Task κ σ τ ε)), tasks ≠ [] → ∀ batch budget,
      LoopsTo ⟨program, budget, some receive⟩ (max batch 2) (.start tasks.reverse)
        ((Scheduler.new batch budget).runStack program receive tasks)) ∧
    (∀ {κ σ τ ε : Type} (program : Program κ σ τ ε) (routine : κ) (state : σ) (batch budget : Nat),
      LoopsTo ⟨program, budget, none⟩ (max batch 2) (.start [.new routine state])
        ((Scheduler.new batch budget).runAlone program routine state)) ∧
    (∀ (engine : Engine) (batch : Nat) (two_le : 2 ≤ batch) (text : String),
      (engine.withBatchSize batch two_le).compile text =
        (engine.compile text).map (·.withBatchSize batch)) ∧
    ∀ (e : Expression) (batch : Nat) (host : Host) (env : Environment) (budget : Nat),
      ((e.withBatchSize batch).run host env budget).outcome =
        (e.run host env budget).outcome :=
  ⟨fun _ _ _ some_task batch budget => (Scheduler.new batch budget).loopsTo_runStack some_task,
    fun _ routine state batch budget =>
      (Scheduler.new batch budget).loopsTo_runAlone routine state,
    fun engine _ two_le text => engine.compile_withBatchSize two_le text,
    fun e batch host env budget => e.outcome_withBatchSize batch host env budget⟩

/-- A countdown in batches of one unit, which count as two, and a text for batches of three. -/
theorem countdown_batches :
    LoopsTo ⟨countdown, 10, some fun state v => .ok (state + v)⟩ 2 (.start [.new () 5])
      ((Scheduler.new 1 10).runStack countdown (fun state v => .ok (state + v)) [.new () 5]) ∧
    (Engine.standard.withBatchSize 3 (by decide)).compile "*'k'" =
      (Engine.standard.compile "*'k'").map (·.withBatchSize 3) :=
  ⟨batchSize_invisible.1 countdown _ [.new () 5] (by simp) 1 10,
    batchSize_invisible.2.2.1 Engine.standard 3 (by decide) "*'k'"⟩

/-! ### Budgets -/

namespace Expression

variable {e : Expression} {host : Host} {env : Environment} {n budget : Nat}
variable {r : Except EvalCause Value}

/-- What the root has a derivation for is the result of the run, if the budget allows the steps of
the derivation. -/
theorem seen?_run (h : Semantics.Evaluates ⟨host, e.registry, e.pool⟩ env e.root n r)
    (enough : n ≤ budget) : seen? (e.run host env budget).result = some r := by
  have within : n ≤ (e.config.scheduler budget).budget := enough
  exact (Context.evaluate_of_evaluates h within).1

/-- A derivation of a value makes the run succeed with that value. -/
theorem run_eq_ok {v : Value}
    (h : Semantics.Evaluates ⟨host, e.registry, e.pool⟩ env e.root n (.ok v))
    (enough : n ≤ budget) : (e.run host env budget).result = .ok v :=
  seen?_eq_ok_iff.mp (seen?_run h enough)

/-- A root without a derivation exceeds every budget: by adequacy, the run goes on forever. -/
theorem run_exceeds
    (never : ¬∃ n r, Semantics.Evaluates ⟨host, e.registry, e.pool⟩ env e.root n r)
    (budget : Nat) : (e.run host env budget).result = .error (.budgetExceeded budget) := by
  refine Classical.byContradiction fun other => ?_
  have within : (Context.evaluate ⟨host, e.registry, e.pool⟩ (e.config.scheduler budget) env
    e.root).1 ≠ .error (.budgetExceeded (e.config.scheduler budget).budget) := other
  obtain ⟨n, r, -, h⟩ := Context.evaluates_of_evaluate within
  exact never ⟨n, r, h⟩

end Expression

/-- **Budgets are exact**, for runs that fail as for others.  A run that ends within its budget
comes to the same under each budget that allows its steps, and exceeds all smaller ones; a run
that does not has taken all the steps of its budget.  So it is for stacks of tasks, for tasks that
run alone, and for evaluation. -/
theorem budget_exact :
    (∀ {κ σ τ ε : Type} (program : Program κ σ τ ε) (receive : σ → τ → Except ε σ)
      (tasks : List (Task κ σ τ ε)), tasks ≠ [] → ∀ batch,
      ExactBudget (fun budget => .fault (.budgetExceeded budget)) fun budget =>
        outcome ((Scheduler.new batch budget).runStack program receive tasks)) ∧
    (∀ {κ σ τ ε : Type} (program : Program κ σ τ ε) (routine : κ) (state : σ) (batch : Nat),
      ExactBudget (fun budget => .fault (.budgetExceeded budget)) fun budget =>
        outcome ((Scheduler.new batch budget).runAlone program routine state)) ∧
    ∀ (e : Expression) (host : Host) (env : Environment),
      ExactBudget .budgetExceeded fun budget => (e.run host env budget).outcome :=
  ⟨fun program receive _ some_task batch => exactBudget_runStack program receive some_task batch,
    exactBudget_runAlone,
    fun e host env => Context.exactBudget ⟨host, e.registry, e.pool⟩ e.config.batchSize env e.root⟩

/-- A countdown from 5 takes six steps, so it exceeds a budget of five. -/
theorem countdown_budget :
    outcome ((Scheduler.new 4 5).runStack countdown (fun state v => .ok (state + v))
      [.new () 5]) = (.error (.fault (.budgetExceeded 5)), 5) := by
  have ended : outcome ((Scheduler.new 4 6).runStack countdown (fun state v => .ok (state + v))
      [.new () 5]) = (.ok 42, 6) :=
    outcome_runStack_of_ends _ (by simp)
      (.step rfl (.step rfl (.step rfl (.step rfl (.step rfl (.last rfl)))))) (Nat.le_refl 6)
  have exact := budget_exact.1 countdown (fun state v => .ok (state + v)) [.new () 5] (by simp) 4
  obtain ⟨-, -, short⟩ := exact.within 6 (by simp [ended])
  refine short 5 ?_
  rw [ended]
  decide

end RuleEngine
