import RuleEngine.Value.Basic

/-!
# What can go wrong inside an operation

The causes for which the body of an operation, or the binding and the naming of
a function, fails.

## Main definitions

* `OperationError` - the causes.
* `OperationError.message` - their wording.

## Design notes

**Errors with data.**  A cause has the texts and values that its wording shows, and the
wording is made from them in one place.  So statements about errors can speak of causes,
and do not depend on how a message is put.

**One cause for complaints.**  What is wrong with particular operands differs from body
to body, and nothing else is done with it than to show it.  Such complaints have one
cause, with the complaint as a text and the operands that it is about.
-/

namespace RuleEngine

/-- Why an operation failed. -/
inductive OperationError
  /-- The host has nothing at this key. -/
  | absentKey (key : String)
  /-- The environment has no such name. -/
  | unboundName (name : String)
  /-- There is no such way to reduce a list. -/
  | unknownReduction (how : Value)
  /-- A value was needed where an operand had been left unevaluated. -/
  | unevaluated (operand : Operand)
  /-- All arguments of the function are bound already. -/
  | saturated (name : String) (arity : Nat)
  /-- The number of arguments is not the number of those still missing. -/
  | argumentCount (name : String) (expected got : Nat)
  /-- No function has this name. -/
  | unknownFunction (name : String)
  /-- The function does not take so many arguments. -/
  | otherArity (name : String) (arity : Nat)
  /-- Anything else that is wrong with the operands shown. -/
  | invalid (complaint : String) (operands : List Value)
  deriving DecidableEq

/-- The wording of a failure. -/
def OperationError.message : OperationError → String
  | absentKey key => "Can't dereference given key: '" ++ key ++ "'"
  | unboundName name => "Can't find variable: '" ++ name ++ "'"
  | unknownReduction how => "Unrecognized reduce operation: " ++ how.render
  | unevaluated operand =>
    "operand " ++ operand.render ++
      " was not evaluated; only `=>` accepts a `\x7b \x7d` block"
  | saturated name arity =>
    "'" ++ name ++ "' takes " ++ toString arity ++ " argument(s); none left to bind"
  | argumentCount name expected got =>
    "'" ++ name ++ "' expects " ++ toString expected ++ " more argument(s), got " ++ toString got
  | unknownFunction name => "unknown function '" ++ name ++ "'"
  | otherArity name arity =>
    "function '" ++ name ++ "' has no overload taking " ++ toString arity ++ " argument(s)"
  | invalid complaint operands => complaint ++ ". Operands: " ++ Value.renderAll operands

end RuleEngine
