import RuleEngine.Engine.Config
import RuleEngine.Evaluate.Run
import RuleEngine.Parse.Run
import RuleEngine.Standard.Library
import RuleEngine.Token.Scan

/-!
# Engines and expressions

An engine compiles texts to expressions, which can be evaluated against any
number of hosts.

## Main definitions

* `Engine`, `Engine.new`, `Engine.standard` - a registry with a valid
  configuration.
* `Engine.compile` - the expression of a text.
* `Expression.evaluate`, `Expression.evaluateIn`, `Expression.evaluateWithin` -
  the value against a host, in an environment, or within a budget.
* `Expression.report` - the value together with the counters of the run.
* `evaluate` - the value of a text under the standard library.

An expression keeps the configuration of the engine that compiled it.

## Design notes

**Compiled once, run often.**  An expression has its root, its pool and everything else
that a run needs, so the engine is not asked again.  Its runs do not change it.

**A budget for each run.**  The budget of the configuration may be replaced for a single
run.  This changes whether the run is over in time, and nothing else.

**Validity is a field.**  An engine has a proof that its configuration is valid, so
there is no engine with a batch size of one or without a budget, and `Engine.new` is
where a configuration is refused.
-/

namespace RuleEngine

open Schedule (Stats)

/-- What may go wrong with the text of an expression. -/
inductive EngineError
  /-- The text does not consist of tokens. -/
  | token (e : TokenError)
  /-- The tokens do not form an expression. -/
  | parse (e : ParseError)
  /-- The expression has no value. -/
  | eval (e : EvalError)
  deriving DecidableEq

/-- The wording of an error. -/
def EngineError.message : EngineError → String
  | token e => e.message
  | parse e => e.message
  | eval e => e.message

/-- A compiled text. -/
structure Expression where
  /-- The operand that is the whole expression. -/
  root : Operand
  /-- The nodes it refers to. -/
  pool : Pool
  /-- The operators and functions it was compiled with. -/
  registry : Registry
  /-- The limits of its evaluation. -/
  config : Config

/-- The outcome of an evaluation. -/
structure Report where
  /-- The value, or why there is none. -/
  result : Except EvalError Value
  /-- The counters of the run. -/
  stats : Stats

/-- A registry with a valid configuration. -/
structure Engine where
  /-- The operators and functions of its expressions. -/
  registry : Registry
  /-- The limits within which it works. -/
  config : Config
  /-- Nothing is wrong with the configuration. -/
  valid : config.fault? = none

namespace Expression

/-- The root, then the nodes, one line each. -/
def render (e : Expression) : String :=
  "root: " ++ e.root.render ++ "\n" ++ e.pool.render

/-- The evaluation in an environment, within a budget. -/
def run (e : Expression) (host : Host) (env : Environment) (budget : Nat) : Report :=
  let context : Context := ⟨host, e.registry, e.pool⟩
  let (result, stats) := context.evaluate (e.config.scheduler budget) env e.root
  ⟨result, stats⟩

/-- The value in an environment. -/
def evaluateIn (e : Expression) (host : Host) (env : Environment) : Except EvalError Value :=
  (e.run host env e.config.stepBudget).result

/-- The value in the empty environment. -/
def evaluate (e : Expression) (host : Host) : Except EvalError Value :=
  e.evaluateIn host .empty

/-- The value in the empty environment, within a budget of its own. -/
def evaluateWithin (e : Expression) (host : Host) (budget : Nat) : Except EvalError Value :=
  (e.run host .empty budget).result

/-- The value in the empty environment, with the counters of the run. -/
def report (e : Expression) (host : Host) : Report :=
  e.run host .empty e.config.stepBudget

end Expression

/-- Result and counters on one line. -/
def Report.render (r : Report) : String :=
  let result := match r.result with
    | .ok v => "result: " ++ v.render
    | .error e => "error: " ++ e.message
  result ++ ", steps: " ++ toString r.stats.steps ++ ", depth: " ++ toString r.stats.maxDepth

namespace Engine

/-- An engine, or what is wrong with the configuration. -/
def new (registry : Registry) (config : Config) : Except ConfigError Engine :=
  match h : config.fault? with
  | some fault => .error fault
  | none => .ok ⟨registry, config, h⟩

/-- The standard library with the usual limits. -/
def standard : Engine :=
  ⟨.standard, {}, by decide⟩

/-- The tokens of a text. -/
def tokenize (engine : Engine) (text : String) : Except TokenError (List Token) :=
  engine.registry.tokenize text

/-- The expression of a text. -/
def compile (engine : Engine) (text : String) : Except EngineError Expression :=
  match engine.tokenize text with
  | .error e => .error (.token e)
  | .ok tokens =>
    match engine.registry.parseWith (engine.config.scheduler engine.config.parseBudget) tokens with
    | .error e => .error (.parse e)
    | .ok parsed => .ok ⟨parsed.root, parsed.pool, engine.registry, engine.config⟩

/-- The value of a text. -/
def evaluate (engine : Engine) (host : Host) (text : String) : Except EngineError Value :=
  match engine.compile text with
  | .error e => .error e
  | .ok e => (e.evaluate host).mapError .eval

end Engine

/-- The value of a text under the standard library, within a budget. -/
def evaluate (host : Host) (text : String) (budget : Nat) : Except EngineError Value :=
  match Engine.standard.compile text with
  | .error e => .error e
  | .ok e => (e.evaluateWithin host budget).mapError .eval

end RuleEngine
