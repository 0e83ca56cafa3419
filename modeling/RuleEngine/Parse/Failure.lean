import RuleEngine.Schedule.Task
import RuleEngine.Token.Basic

/-!
# Errors of parsing

A parse error has a cause and shows where parsing had come to.

## Main definitions

* `ParseFault` - the causes, and their wording.
* `ParseSnapshot` - the state that the failing action found.
* `ParseError` - both together.

## Design notes

When parsing ends because its budget is used up, no action has failed and the
snapshot is empty.

**Snapshots are texts where they can be.**  The stack is shown as its symbols are
written, since an author has no use for anything else.  The tokens that are left and the
nodes that were made are kept as they are.

**Causes and their wording.**  The message of a fault is a function of the fault.  A
desugaring that refuses its operands gives its reason as a text, which becomes the
message.
-/

namespace RuleEngine

/-- Why parsing failed. -/
inductive ParseFault
  /-- No operator has this name and this number of operands. -/
  | noOperator (name : String) (operands : Nat)
  /-- The desugaring of the operator made no node, for this reason. -/
  | rejected (reason : String)
  /-- The desugaring of the operator made a node that refers to a missing one. -/
  | danglingNode (name : String)
  /-- A bracket closes nothing. -/
  | unexpected (bracket : Bracket)
  /-- The tokens are used up and do not form an expression. -/
  | malformed
  /-- The scheduler ended parsing. -/
  | stopped (fault : Schedule.Fault)
  deriving DecidableEq, Repr

/-- The wording of a cause. -/
def ParseFault.message : ParseFault → String
  | noOperator name operands =>
    "no operator '" ++ name ++ "' takes " ++ toString operands ++ " operand(s)"
  | rejected reason => reason
  | danglingNode name => "rewrite of '" ++ name ++ "' referenced a node that does not exist"
  | unexpected bracket => "Unexpected '" ++ (Token.bracket bracket).render ++ "' parenthesis"
  | malformed => "Malformed expression"
  | stopped (.budgetExceeded budget) => "parse step budget of " ++ toString budget ++ " exceeded"
  | stopped fault => fault.message

/-- Where parsing had come to. -/
structure ParseSnapshot where
  /-- The tokens that were left. -/
  remaining : List Token
  /-- The entries of the stack as text, bottom first. -/
  stack : List String
  /-- The nodes made so far. -/
  pool : Pool
  deriving DecidableEq, Repr

/-- Nothing is left and nothing has been made. -/
def ParseSnapshot.empty : ParseSnapshot :=
  ⟨[], [], .empty⟩

/-- A failure of parsing. -/
structure ParseError where
  /-- Its cause. -/
  fault : ParseFault
  /-- Where it happened. -/
  snapshot : ParseSnapshot
  deriving DecidableEq, Repr

namespace ParseError

/-- The error of a run that ended without a result. -/
def ofStop : Schedule.Stop ParseError → ParseError
  | .fault fault => ⟨.stopped fault, .empty⟩
  | .raised e => e

/-- The wording of the error, with the tokens before which it happened. -/
def message (e : ParseError) : String :=
  let place :=
    if e.snapshot.remaining.isEmpty then ""
    else " (before `" ++ Token.renderAll e.snapshot.remaining ++ "`)"
  "parse error: " ++ e.fault.message ++ place

end ParseError

end RuleEngine
