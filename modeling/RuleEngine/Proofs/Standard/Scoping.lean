import RuleEngine.Proofs.Evaluate.Locality
import RuleEngine.Proofs.Standard.Operands
import RuleEngine.Proofs.Standard.Stored
import RuleEngine.Proofs.Token.Enclosed

/-!
# Sub-expressions are scoped dynamically

The text `('x' => {E}) apply 'a'` comes to what `E` comes to where `x` is known to
be `a`, and else the environment of the whole text holds.  Two compilations and two
runs are compared for that, and they are brought together in four steps.

* **Text.**  `E` is read in braces as it is read alone.
* **Nodes.**  The fold of a derivation adds nodes at the end, so the nodes of `E` come
  first and with the same indices; two are added to them.
* **Lookups.**  Nothing in the evaluation of `E` leads to these two, unless a value of
  the host or of the environment does.
* **Turns.**  Four turns make the sub-expression and call a task for its body.  That
  task does what it would do alone; a value takes one more turn to be the result.

A sub-expression consists of a name and a body and has no environment in it.  So the
place where `=>` runs has no say in what the body comes to.

## Main definitions

* `applicationText` - the text.
* `applicationPool` - the nodes that it is compiled to.
* `surplus` - the steps that an application takes beyond those of the body.
* `Prolongs` - what one run has to do with the other, under all budgets.

## Main statements

* `compile_application` - the text is compiled to these nodes.
* `prolongs_application` - over any pool with such nodes, an application comes to what
  the body comes to.
* `application_extends` - both together, for all bodies and environments.
-/

namespace RuleEngine

namespace Scoping

open Parse (Phrase actions)
open Registry (Writes)
open Semantics (Leads Ends task partialLayer)

/-- The text that applies a sub-expression with the given body to a literal. -/
def applicationText (parameter body arg : String) : String :=
  "('" ++ parameter ++ "' => \x7b" ++ body ++ "\x7d) apply '" ++ arg ++ "'"

/-- The node that makes a sub-expression. -/
abbrev functionNode (parameter : String) (body : Operand) : Node :=
  ⟨"=>", [.literal parameter, .block body]⟩

/-- The node that applies what another node comes to. -/
abbrev applicationNode (function : Nat) (arg : String) : Node :=
  ⟨"apply", [.node function, .literal arg]⟩

/-- The nodes of a body, the sub-expression, and its application. -/
def applicationPool (pool : Pool) (parameter : String) (body : Operand) (arg : String) : Pool :=
  (pool.push (functionNode parameter body)).push (applicationNode pool.size arg)

section Pool

variable (pool : Pool) (parameter : String) (body : Operand) (arg : String)

/-- The two nodes are behind those of the body. -/
theorem nodes_applicationPool : (applicationPool pool parameter body arg).nodes =
    pool.nodes ++ #[functionNode parameter body, applicationNode pool.size arg] := by
  rw [← Array.toList_inj]
  simp [applicationPool, Pool.push]

/-- So each index that the body uses leads to the same node in both pools. -/
theorem extends_applicationPool : pool.Extends (applicationPool pool parameter body arg) :=
  (Pool.extends_push _ _).trans (Pool.extends_push _ _)

theorem get?_function : (applicationPool pool parameter body arg).get? pool.size =
    some (functionNode parameter body) :=
  Pool.extends_push _ _ _ _ (Pool.get?_push_size _ _)

theorem get?_application : (applicationPool pool parameter body arg).get? (pool.size + 1) =
    some (applicationNode pool.size arg) := by
  rw [← Pool.size_push pool (functionNode parameter body)]
  exact Pool.get?_push_size _ _

end Pool

/-! ### Compilation -/

/-- The derivation of the text. -/
def applicationPhrase (parameter : String) (body : Phrase .expression) (arg : String) :
    Phrase .expression :=
  .infix2 (.single (.paren (.infix2 (.single (.literal parameter)) "=>" (.brace body)))) "apply"
    (.literal arg)

section Compilation

variable {parameter arg : String} (hp : '\'' ∉ parameter.toList) (ha : '\'' ∉ arg.toList)

include hp ha

/-- A body is read in braces as it is read alone, since a closing brace cannot be mistaken for a
part of it. -/
theorem writes_application {text : String} {body : Phrase .expression}
    (read : Registry.standard.tokenize text = .ok body.tokens) :
    Registry.standard.Writes (applicationPhrase parameter body arg).tokens
      (applicationText parameter text arg) := by
  have opened : Registry.standard.Writes [.bracket .openBrace] "\x7b" :=
    fun _ _ => Vocabulary.tokens_bracket .openBrace
  have enclosed : Registry.standard.Writes (body.tokens ++ [.bracket .closeBrace])
      (text ++ "\x7d") := Registry.writes_enclosed Registry.regular_standard read rfl
  have made := Logic.writes_operator_space Stored.operators_mem.2.2.1 (opened.append enclosed)
  have function := Registry.writes_open.append ((Registry.writes_literal hp).append
    (Registry.writes_space.append (made.append Registry.writes_close)))
  have applied := Logic.writes_operator_space Stored.operators_mem.2.1 (Registry.writes_literal ha)
  have whole := function.append (Registry.writes_space.append applied)
  have spelled : applicationText parameter text arg =
      "(" ++ ("'" ++ parameter ++ "'" ++ (" " ++ ("=>" ++ (" " ++ ("\x7b" ++ (text ++ "\x7d"))) ++
        ")"))) ++ (" " ++ ("apply" ++ (" " ++ ("'" ++ arg ++ "'")))) := by
    rw [applicationText, show "('" = "(" ++ "'" from rfl,
      show "' => \x7b" = "'" ++ (" " ++ ("=>" ++ (" " ++ "\x7b"))) from rfl,
      show "\x7d) apply '" = "\x7d" ++ (")" ++ (" " ++ ("apply" ++ (" " ++ "'")))) from rfl]
    simp only [String.append_assoc]
  rw [spelled]
  simpa [applicationPhrase, Phrase.tokens] using whole

end Compilation

/-- **The nodes of the body come first**, and two more behind them. -/
theorem build_application (parameter arg : String) {body : Phrase .expression}
    {parsed : Parse.Parsed} (built : body.build .standard .empty = .ok parsed)
    (unbraced : ∀ x, parsed.root ≠ .block x) :
    (applicationPhrase parameter body arg).build .standard .empty = .ok
      ⟨.node (parsed.pool.size + 1),
        applicationPool parsed.pool parameter parsed.root arg⟩ := by
  have braced : Parse.braced parsed.root = .block parsed.root := by
    cases root : parsed.root with
    | block inner => exact absurd root (unbraced inner)
    | _ => rfl
  have inside : (Operand.block parsed.root).Within parsed.pool := body.within_of_build built
  have made : Parse.applyOperator .standard "=>" [.literal parameter, .block parsed.root]
      parsed.pool = .ok ⟨.node parsed.pool.size,
        parsed.pool.push (functionNode parameter parsed.root)⟩ := by
    refine Logic.apply_plain rfl rfl ?_
    simpa using ⟨nofun, inside⟩
  have last : (Operand.node parsed.pool.size).Within
      (parsed.pool.push (functionNode parameter parsed.root)) := by
    intro i hi
    cases hi
    rw [Pool.size_push]
    exact Nat.lt_succ_self _
  have applied : Parse.applyOperator .standard "apply" [.node parsed.pool.size, .literal arg]
      (parsed.pool.push (functionNode parameter parsed.root)) = .ok
        ⟨.node (parsed.pool.push (functionNode parameter parsed.root)).size,
          applicationPool parsed.pool parameter parsed.root arg⟩ := by
    refine Logic.apply_plain rfl rfl ?_
    simpa using ⟨last, nofun⟩
  rw [Pool.size_push] at applied
  simp only [applicationPhrase, Phrase.build, built, bind, Except.bind, pure, Except.pure, braced,
    made, applied]

/-- **The text is compiled to the nodes of the body and two more**, with ten actions
more than the body. -/
theorem compile_application {parameter arg : String} (hp : '\'' ∉ parameter.toList)
    (ha : '\'' ∉ arg.toList) {config config' : Config} {valid : config.fault? = none}
    (valid' : config'.fault? = none) (more : config.parseBudget + 10 ≤ config'.parseBudget)
    {text : String} {e : Expression}
    (compiled : Engine.compile ⟨.standard, config, valid⟩ text = .ok e)
    (unbraced : ∀ x, e.root ≠ .block x) :
    Engine.compile ⟨.standard, config', valid'⟩ (applicationText parameter text arg) =
      .ok ⟨.node (e.pool.size + 1), applicationPool e.pool parameter e.root arg, .standard,
        config'⟩ := by
  obtain ⟨body, read, short, built, -⟩ := Engine.compile_eq_ok_iff.mp compiled
  refine Engine.compile_eq_ok_iff.mpr ⟨applicationPhrase parameter body arg,
    (writes_application hp ha read).tokenize, ?_, build_application parameter arg built unbraced,
    rfl⟩
  have amount : actions (applicationPhrase parameter body arg).tokens =
      actions body.tokens + 10 := by
    simp [applicationPhrase, Phrase.tokens]
    omega
  dsimp only at short ⊢
  omega

/-! ### Evaluation -/

/-- The steps that an application takes beyond those of the body: four to get there,
and one to hand a value on. -/
def surplus : Except EvalError Value → Nat
  | .ok _ => 5
  | .error _ => 4

/-- What the run of an application has to do with the run of its body, both of them
as functions of the budget. -/
structure Prolongs (body application : Nat → Except EvalError Value × Nat) : Prop where
  /-- A body that comes to a result within its budget is the result of the application,
  under each budget that allows for the surplus. -/
  within : ∀ budget, (∀ b, (body budget).1 ≠ .error (.budgetExceeded b)) →
    ∀ budget', (body budget).2 + surplus (body budget).1 ≤ budget' →
      application budget' = ((body budget).1, (body budget).2 + surplus (body budget).1)
  /-- A body that exceeds its budget exceeds it inside of the application. -/
  beyond : ∀ budget b, (body budget).1 = .error (.budgetExceeded b) →
    application (budget + 4) = (.error (.budgetExceeded (budget + 4)), budget + 4)

section Evaluation

variable {host : Host} {pool : Pool} {i j : Nat} {parameter arg : String} {body : Operand}
variable {env : Environment}

/-- The arguments of the application are there. -/
abbrev applying (env : Environment) (parameter : String) (body : Operand) (arg : String) :
    Evaluate.Frame :=
  .operand ⟨env, [partialLayer env ⟨"apply", 2⟩
    [.value (.subExpr parameter body), .value (.str arg)] []]⟩

/-- The application begins with the body, in the environment that it runs in, with the argument
added under the name of the parameter. -/
theorem step_applying (host : Host) (pool : Pool) (env : Environment) (parameter : String)
    (body : Operand) (arg : String) :
    (applying env parameter body arg).step ⟨host, .standard, pool⟩ =
      match Evaluate.Frame.start pool (env.insert parameter (.str arg)) body with
      | .error e => .fail e
      | .ok inner => .call (.operand ⟨env, []⟩) (task inner none) := by
  have registered : Registry.standard.find? ⟨"apply", 2⟩ =
    some ⟨⟨"apply", 2⟩, .operator .infix2, Standard.application, none⟩ := rfl
  rw [Semantics.step_apply]
  simp only [Evaluate.OperandFrame.run, registered, Stored.call_application, Demand.start,
    Registry.scope]
  cases begun : Evaluate.Frame.start pool (env.insert parameter (.str arg)) body with
  | error e => rfl
  | ok inner => exact congrArg (Schedule.Step.call _) (Semantics.new_operand_eq_task begun)

/-- The application has no argument yet. -/
abbrev unapplied (env : Environment) (i : Nat) (arg : String) : Evaluate.Frame :=
  .operand ⟨env, [partialLayer env ⟨"apply", 2⟩ [] [.node i, .literal arg]]⟩

/-- The application begins with its frame, in which both operands are still to be evaluated. -/
theorem start_application (applied : pool.get? j = some (applicationNode i arg)) :
    Evaluate.Frame.start pool env (.node j) = .ok (unapplied env i arg) := by
  simp only [Evaluate.Frame.start_node, Evaluate.Layer.start, applied]
  rfl

section Turns

variable (made : pool.get? i = some (functionNode parameter body))

include made

/-- **A sub-expression is the same value everywhere.**  Nothing of the environment is
kept in it. -/
theorem computes_function (host : Host) (env : Environment) :
    Semantics.Computes ⟨host, .standard, pool⟩ env i 1 (.ok (.subExpr parameter body)) := by
  have registered : Registry.standard.find? ⟨"=>", 2⟩ =
    some ⟨⟨"=>", 2⟩, .operator .infix2, Standard.subExpression, none⟩ := rfl
  exact .value made (.literal (.block .nil)) registered (Logic.call_direct rfl)

/-- Three turns make the sub-expression an argument. -/
theorem leads_applying : Leads ⟨host, .standard, pool⟩ 3 [task (unapplied env i arg) none]
    [task (applying env parameter body arg) none] :=
  Semantics.delivers_operands (.node (computes_function made host env) (.literal .nil))
    ⟨"apply", 2⟩ [] [] none []

/-- A body that cannot begin is the error of the application. -/
theorem ends_of_start_eq_error {e : EvalError}
    (begun : Evaluate.Frame.start pool (env.insert parameter (.str arg)) body = .error e) :
    Ends ⟨host, .standard, pool⟩ 4 [task (unapplied env i arg) none] (.error (.raised e)) := by
  have step := step_applying host pool env parameter body arg
  rw [begun] at step
  exact (leads_applying made).ends (Semantics.turn_fail step)

variable {inner : Evaluate.Frame}
variable (begun : Evaluate.Frame.start pool (env.insert parameter (.str arg)) body = .ok inner)

include begun

/-- A body that begins does so on top of the application, which has nothing left to
do but to wait. -/
theorem leads_body : Leads ⟨host, .standard, pool⟩ 4 [task (unapplied env i arg) none]
    [task inner none, task (.operand ⟨env, []⟩) none] := by
  have step := step_applying host pool env parameter body arg
  rw [begun] at step
  exact (leads_applying made).trans (Semantics.turn_call step)

/-- What the body ends with is what the application ends with, a few turns later: a value is
handed over, and an error ends the whole stack at once. -/
theorem ends_of_body {n : Nat} {result : Except (Schedule.Stop EvalError) Value}
    (ends : Ends ⟨host, .standard, pool⟩ n [task inner none] result) :
    Ends ⟨host, .standard, pool⟩ (n + surplus (result.mapError EvalError.ofStop))
      [task (unapplied env i arg) none] result := by
  cases result with
  | error why =>
      have fails := (leads_body made begun).ends (ends.inside [task (.operand ⟨env, []⟩) none])
      rwa [Nat.add_comm] at fails
  | ok v =>
      have back : Leads ⟨host, .standard, pool⟩ n
          [task inner none, task (.operand ⟨env, []⟩) none]
          [task (.operand ⟨env, [.value v]⟩) none] := ends.hands rfl []
      -- A value alone on the stack is the result.
      have done : Ends ⟨host, .standard, pool⟩ 1 [task (.operand ⟨env, [.value v]⟩) none]
          (.ok v) := .last rfl
      have all := ((leads_body made begun).trans back).ends done
      rwa [show 4 + n + 1 = n + 5 by omega] at all

end Turns

/-- **An application comes to what its body comes to**, where the parameter is known
to be the argument. -/
theorem prolongs_application (made : pool.get? i = some (functionNode parameter body))
    (applied : pool.get? j = some (applicationNode i arg)) (batch batch' : Nat) : Prolongs
      (fun budget => Context.outcome ⟨host, .standard, pool⟩ (.new batch budget)
        (env.insert parameter (.str arg)) body)
      (fun budget => Context.outcome ⟨host, .standard, pool⟩ (.new batch' budget) env
        (.node j)) := by
  let context : Context := ⟨host, .standard, pool⟩
  have start : Evaluate.Frame.start context.pool env (.node j) = .ok (unapplied env i arg) :=
    start_application applied
  cases begun : Evaluate.Frame.start context.pool (env.insert parameter (.str arg)) body with
  -- A body that does not begin makes the application fail with its fourth step.
  | error e =>
      have fails : Ends context 4 [task (unapplied env i arg) none] (.error (.raised e)) :=
        ends_of_start_eq_error made begun
      have body (budget : Nat) := context.outcome_of_start_eq_error (.new batch budget) begun
      constructor
      · intro budget _ budget' enough
        rw [body] at enough ⊢
        exact context.outcome_of_ends start (.new batch' budget') fails enough
      · intro budget b failed
        rw [body] at failed
        cases failed
        obtain ⟨cause, caused⟩ := context.cause_of_start_eq_error begun
        cases caused
  | ok inner =>
      constructor
      · intro budget ended budget' enough
        rcases context.evaluate_of_start_eq_ok (.new batch budget) begun with
          ⟨n, depth, result, -, ends, run⟩ | ⟨last, depth, -, run⟩
        · have body : context.outcome (.new batch budget) (env.insert parameter (.str arg)) body =
              (result.mapError EvalError.ofStop, n) := by rw [Context.outcome, run]
          rw [body] at enough ⊢
          exact context.outcome_of_ends start (.new batch' budget') (ends_of_body made begun ends)
            enough
        · have exceeded : (context.outcome (.new batch budget) (env.insert parameter (.str arg))
              body).1 = .error (.budgetExceeded budget) := by rw [Context.outcome, run]; rfl
          exact absurd exceeded (ended budget)
      · intro budget b failed
        rcases context.evaluate_of_start_eq_ok (.new batch budget) begun with
          ⟨n, depth, result, -, ends, run⟩ | ⟨last, depth, leads, -⟩
        · have ended : (context.outcome (.new batch budget) (env.insert parameter (.str arg))
              body).1 = result.mapError EvalError.ofStop := by rw [Context.outcome, run]
          exact absurd (ended.symm.trans failed) (context.mapError_ne_budgetExceeded begun ends b)
        · -- The body goes on as it would alone, with the application below it.
          have alone : [task inner none] = [] ++ [task inner none] := rfl
          have inside := (leads.inside alone).2 [task (.operand ⟨env, []⟩) none]
          have all := (leads_body made begun).trans inside
          rw [Nat.add_comm] at all
          exact context.outcome_of_leads start (.new batch' (budget + 4)) all

end Evaluation

/-! ### Both together -/

/-- **To apply a sub-expression is to evaluate its body in a larger environment.**  For
a text that is compiled to anything but a braced body, the text that applies it is
compiled as well, with a parse budget that is larger by ten.  Its nodes are those of
the body and two more.  The first of these comes to the same value in every
environment.  And if there are no sub-expressions in the data of the host and in the
environment of the application, then the application comes to what the body comes to
in this environment, with the parameter bound to the argument: the value or the error,
with the place of the error, four steps later or five; and if the body exceeds its
budget, then so does the application. -/
theorem application_extends {config config' : Config} (valid : config.fault? = none)
    (valid' : config'.fault? = none) (more : config.parseBudget + 10 ≤ config'.parseBudget)
    {text : String} {e : Expression}
    (compiled : Engine.compile ⟨.standard, config, valid⟩ text = .ok e)
    (unbraced : ∀ x, e.root ≠ .block x) {parameter arg : String}
    (hp : '\'' ∉ parameter.toList) (ha : '\'' ∉ arg.toList) :
    ∃ application : Expression,
      Engine.compile ⟨.standard, config', valid'⟩ ("('" ++ parameter ++ "' => \x7b" ++ text ++
        "\x7d) apply '" ++ arg ++ "'") = .ok application ∧
      application.root = .node (e.pool.size + 1) ∧
      application.pool.nodes = e.pool.nodes ++ #[⟨"=>", [.literal parameter, .block e.root]⟩,
        ⟨"apply", [.node e.pool.size, .literal arg]⟩] ∧
      (∀ host env, ∀ budget ≥ 2, ((application.withRoot (.node e.pool.size)).run host env
        budget).result = .ok (.subExpr parameter e.root)) ∧
      ∀ (host : Host) (env : Environment), host.Over (fun _ => False) →
        Environment.Over (fun _ => False) env →
        Prolongs (fun budget => (e.run host (env.insert parameter (.str arg)) budget).outcome)
          (fun budget => (application.run host env budget).outcome) := by
  obtain ⟨body, -, -, built, same⟩ := Engine.compile_eq_ok_iff.mp compiled
  let pool := applicationPool e.pool parameter e.root arg
  have made : pool.get? e.pool.size = some (functionNode parameter e.root) :=
    get?_function e.pool parameter e.root arg
  have applied : pool.get? (e.pool.size + 1) = some (applicationNode e.pool.size arg) :=
    get?_application e.pool parameter e.root arg
  refine ⟨_, compile_application hp ha valid' more compiled unbraced, rfl,
    nodes_applicationPool e.pool parameter e.root arg, ?_, ?_⟩
  · intro host env budget enough
    exact Expression.run_eq_ok (.value (computes_function made host env)) enough
  · intro host env hhost henv
    -- Host and environment have no operands, so nothing in the run leads out of the old pool.
    have everywhere : ∀ x : Operand, False → x.Within e.pool := fun _ => False.elim
    have confined : Evaluate.Confined ⟨host, .standard, e.pool⟩ :=
      ⟨body.acyclic_of_build built Pool.acyclic_empty, Registry.keeps_standard,
        hhost.mono everywhere⟩
    have known : Environment.Over (Operand.Within e.pool) (env.insert parameter (.str arg)) :=
      Environment.over_insert (henv.mono everywhere) parameter (.str arg)
    -- The body comes to the same over the larger pool.
    have alone (budget : Nat) : (e.run host (env.insert parameter (.str arg)) budget).outcome =
        Context.outcome ⟨host, .standard, pool⟩ (.new config.batchSize budget)
          (env.insert parameter (.str arg)) e.root := by
      have evaluated := confined.evaluate (extends_applicationPool e.pool parameter e.root arg)
        (.new config.batchSize budget) (body.within_of_build built) known
      rw [Context.outcome, ← evaluated, same]
      rfl
    simp only [alone]
    exact prolongs_application made applied config.batchSize config'.batchSize

/-- The name `y` is free in the body `v 'y'`.  It has the value that it has where the
sub-expression is applied. -/
theorem application_free_variable :
    ∃ application : Expression,
      Engine.compile ⟨.standard, { parseBudget := 100010 }, rfl⟩
        "('x' => \x7bv 'y'\x7d) apply 'a'" = .ok application ∧
      ∀ b : String, (application.run (Record.toHost .empty)
        (Dictionary.empty.insert "y" (.str b)) 7).outcome = (.ok (.str b), 7) := by
  let e : Expression := ⟨.node 0, ⟨#[⟨"v", [.literal "y"]⟩]⟩, .standard, {}⟩
  have read : Registry.standard.Writes [.operator "v" .prefix1, .literal "y"] "v 'y'" :=
    Logic.writes_operator_space Stored.operators_mem.2.2.2 (Registry.writes_literal (by decide))
  have compiled : Engine.compile ⟨.standard, {}, rfl⟩ "v 'y'" = .ok e :=
    Engine.compile_eq_ok_iff.mpr ⟨.single (.prefix1 "v" (.literal "y")), read.tokenize, by decide,
      rfl, rfl⟩
  have valid : Config.fault? { parseBudget := 100010 } = none := rfl
  obtain ⟨application, wrapped, -, -, -, same⟩ := application_extends rfl valid (by decide)
    compiled nofun (by decide : '\'' ∉ "x".toList) (by decide : '\'' ∉ "a".toList)
  refine ⟨application, wrapped, fun b => ?_⟩
  let env : Environment := Dictionary.empty.insert "y" (.str b)
  have bound : (env.insert "x" (.str "a")).get? "y" = some (.str b) := by
    simp [env, Dictionary.get?_insert]
  have found : e.pool.get? 0 = some ⟨"v", [.literal "y"]⟩ := rfl
  have registered : Registry.standard.find? ⟨"v", 1⟩ =
    some ⟨⟨"v", 1⟩, .operator .prefix1, Standard.variableValue, none⟩ := rfl
  have free : Semantics.Evaluates ⟨Record.toHost .empty, e.registry, e.pool⟩
      (env.insert "x" (.str "a")) e.root 2 (.ok (.str b)) :=
    .value (.value found (.literal .nil) registered (Stored.call_variableValue _ bound))
  have inner : (e.run (Record.toHost .empty) (env.insert "x" (.str "a")) 2).outcome =
      (.ok (.str b), 2) :=
    Prod.ext (Expression.run_eq_ok free (Nat.le_refl 2))
      (Context.evaluate_of_evaluates free (Nat.le_refl 2)).2
  have plain : Environment.Over (fun _ => False) env :=
    Environment.over_insert (fun _ _ bound => by cases bound) "y" (.str b)
  have empty : (Record.toHost .empty).Over (fun _ => False) := fun _ _ found => by cases found
  have prolonged := (same (Record.toHost .empty) env empty plain).within 2
  simp only [inner] at prolonged
  exact prolonged nofun 7 (Nat.le_refl 7)

end Scoping

end RuleEngine
