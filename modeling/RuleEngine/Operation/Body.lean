import RuleEngine.Host
import RuleEngine.Operation.Directory
import RuleEngine.Operation.Failure
import RuleEngine.Value.Callee

/-!
# Bodies of operations

The body of an operation receives arguments, some of them unevaluated, and says
how its result comes about.

## Main definitions

* `Arg` - an argument: a value, a deferred operand with its environment, or a
  braced body.
* `Traversal` - the ways to go through a list.
* `Demand` - evaluation that a body asks for and does not do itself.
* `Outcome` - a value at once, or a demand whose result is the value.
* `Scope` - what a body may look at.
* `Reply` - what a body answers: an outcome, or the outcome of applying some
  callee to arguments.
* `Body` - a body together with the promise that makes replies come to an end.

## Design notes

**Bodies apply callees by handing over.**  Applying a function runs the body of
another registered operation, and the table of those is made of bodies.  So a
body does not run another one; it replies with the callee and the arguments, and
whoever holds the table goes on from there.  All applications are in tail
position, hence nothing is lost.

**Hand-overs come to an end.**  A body that hands over to a function passes on
less than it got, by `Value.weight`: at least the function itself has been
taken off.  This is the field `Body.lightens`; `Body.direct` covers all bodies
that hand nothing over.
-/

namespace RuleEngine

/-- An operand whose evaluation waits, and the environment it has to be
evaluated in. -/
structure Suspension where
  /-- What is evaluated. -/
  operand : Operand
  /-- The environment for that. -/
  env : Environment
  deriving DecidableEq

/-- An argument of an operation. -/
inductive Arg
  /-- An evaluated operand. -/
  | value (v : Value)
  /-- An operand that is evaluated only if the body asks for it. -/
  | deferred (suspension : Suspension)
  /-- A braced body. -/
  | block (operand : Operand)
  deriving DecidableEq

/-- The ways to go through a list, by how the results for its elements are
combined. -/
inductive Traversal
  /-- Collect the results. -/
  | map
  /-- Keep the elements with a true result. -/
  | filter
  /-- Join the results, which must be lists. -/
  | flatMap
  deriving DecidableEq, Repr

/-- The name of a traversal. -/
def Traversal.render : Traversal → String
  | map => "map"
  | filter => "filter"
  | flatMap => "flatMap"

/-- Evaluation that a body asks for. -/
inductive Demand
  /-- Evaluate a deferred operand. -/
  | force (suspension : Suspension)
  /-- Apply a callee to each element of a list, from left to right. -/
  | traverse (items : List Value) (callee : Callee) (traversal : Traversal)
  /-- Enumerate the keys of the host. -/
  | keys
  deriving DecidableEq

/-- How the result of an operation comes about. -/
inductive Outcome
  /-- The result is this value. -/
  | value (v : Value)
  /-- The result is that of this demand. -/
  | demand (demand : Demand)
  deriving DecidableEq

namespace Arg

/-- The value of an argument that is evaluated. -/
def toValue : Arg → Except OperationError Value
  | value v => .ok v
  | deferred suspension => .error (.unevaluated suspension.operand)
  | block operand => .error (.unevaluated (.block operand))

/-- The value of an argument, if it is evaluated. -/
def value? : Arg → Option Value
  | value v => some v
  | deferred _ => none
  | block _ => none

/-- The outcome of an argument; a deferred one is evaluated now. -/
def outcome : Arg → Except OperationError Outcome
  | value v => .ok (.value v)
  | deferred suspension => .ok (.demand (.force suspension))
  | block operand => .error (.unevaluated (.block operand))

/-- The number of values in an argument, and one for an unevaluated one. -/
def weight : Arg → Nat
  | value v => v.weight
  | deferred _ => 1
  | block _ => 1

/-- The weight of several arguments together. -/
def weightAll : List Arg → Nat
  | [] => 0
  | first :: rest => first.weight + weightAll rest

theorem weightAll_map_value (values : List Value) :
    weightAll (values.map value) = Value.weightAll values := by
  induction values with
  | nil => rfl
  | cons first rest ih => rw [List.map_cons, weightAll, ih, weight, Value.weightAll]

end Arg

/-- What a body may look at. -/
structure Scope where
  /-- The data of the host. -/
  host : Host
  /-- The values of names. -/
  env : Environment
  /-- The functions that have a name. -/
  directory : Directory

/-- What a body answers. -/
inductive Reply
  /-- This is how the result comes about. -/
  | outcome (outcome : Outcome)
  /-- The result is that of applying `callee` to `given`. -/
  | apply (callee : Callee) (given : List Value)

/-- The body of an operation. -/
structure Body where
  /-- What the body does. -/
  run : Scope → List Arg → Except OperationError Reply
  /-- A function is applied to less than the body was given. -/
  lightens : ∀ scope args f given, run scope args = .ok (.apply (.function f) given) →
    Value.weightAll (f.bound ++ given) < Arg.weightAll args

/-- A body that applies nothing. -/
def Body.direct (run : Scope → List Arg → Except OperationError Outcome) : Body where
  run scope args := (run scope args).map .outcome
  lightens scope args f given h := by
    cases hr : run scope args <;> simp [hr, Except.map] at h

/-- Apply a sub-expression: its body is to be evaluated in `env`, with the one
argument added. -/
def SubExpression.apply (s : SubExpression) (env : Environment) (given : List Value) :
    Except OperationError Outcome :=
  match given with
  | [arg] => .ok (.demand (.force ⟨s.body, env.insert s.parameter arg⟩))
  | _ => .error (.argumentCount ("'" ++ s.parameter ++ "' =>") 1 given.length)

/-- Bind the next argument of a function. -/
def FunctionValue.bind (f : FunctionValue) (arg : Value) : Except OperationError FunctionValue :=
  if f.isSaturated then .error (.saturated f.signature.name f.signature.arity)
  else .ok { f with bound := f.bound ++ [arg] }

end RuleEngine
