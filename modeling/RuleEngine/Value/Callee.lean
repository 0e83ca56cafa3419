import RuleEngine.Value.Basic

/-!
# Values that can be applied

Two kinds of values can be applied to arguments: functions, which may have some
of their arguments bound already, and sub-expressions, which take exactly one.

## Main definitions

* `FunctionValue`, `SubExpression` - the two kinds.
* `Callee` - either of them, and `Callee.toValue`, the value it is.
* `FunctionValue.missing` - how many arguments are still to come.

## Design notes

**Functions know their arity.**  A function value is not a body but a signature with
arguments.  The body is looked up when the function is applied, so values can be
compared, shown and stored without a registry at hand.

**Sub-expressions have no environment.**  A sub-expression is a parameter and an
operand.  It is evaluated in the environment of the place where it is applied, with the
parameter added, so other names in its body mean what they mean there.

**Arguments still missing.**  For a callee of either kind it is known how many arguments
it takes before anything runs, and operators check that number first.  The subtraction
is cut off at zero, and binding is refused where nothing is missing.
-/

namespace RuleEngine

/-- A registered function with its first arguments bound.  Binding evaluates
nothing; the function runs once the last argument arrives. -/
structure FunctionValue where
  /-- Name and arity. -/
  signature : Signature
  /-- The arguments bound so far, first to last. -/
  bound : List Value
  deriving DecidableEq

/-- A body that waits for the value of one name.  It is evaluated in the
environment of the place where it is applied, with that name added. -/
structure SubExpression where
  /-- The name that the argument gets. -/
  parameter : String
  /-- What is evaluated. -/
  body : Operand
  deriving DecidableEq

/-- Something that can be applied to arguments. -/
inductive Callee
  /-- A function. -/
  | function (f : FunctionValue)
  /-- A sub-expression. -/
  | subExpr (s : SubExpression)
  deriving DecidableEq

namespace FunctionValue

/-- A function with no argument bound. -/
def new (signature : Signature) : FunctionValue :=
  ⟨signature, []⟩

/-- The function as a value. -/
def toValue (f : FunctionValue) : Value :=
  .function f.signature f.bound

/-- How many arguments are still to come. -/
def missing (f : FunctionValue) : Nat :=
  f.signature.arity - f.bound.length

/-- Whether all arguments are bound. -/
def isSaturated (f : FunctionValue) : Bool :=
  f.missing == 0

end FunctionValue

/-- The sub-expression as a value. -/
def SubExpression.toValue (s : SubExpression) : Value :=
  .subExpr s.parameter s.body

namespace Callee

/-- The callee as a value. -/
def toValue : Callee → Value
  | function f => f.toValue
  | subExpr s => s.toValue

/-- How many arguments are still to come. -/
def missing : Callee → Nat
  | function f => f.missing
  | subExpr _ => 1

end Callee

end RuleEngine
