import RuleEngine.Host
import RuleEngine.Operation.Failure
import RuleEngine.Schedule.Task

/-!
# Errors of evaluation

An evaluation fails in an operation, at a braced body that stands where a value
is needed, or because its budget is used up.  Besides, every routine checks what it
is given and ends with an internal error where a state makes no sense, rather than
going on with it.

## Main definitions

* `Evaluate.Routine` - the three things that a task of an evaluation may do.
* `InternalFault` - states of evaluation that an expression made by parsing with
  the standard operators does not lead to.
* `EvalSnapshot` - where an operation failed.
* `EvalError` - the errors, with their wording.

## Design notes

**Causes and places.**  An error of an operation has its cause and shows the operation
with its operands, and with the stack on which it failed.  The place is for the author
and has no influence on anything; statements about results speak of causes.

**Internal faults are checks.**  Each of them guards a step that takes something for
granted: that an element is there when its result arrives, or that a frame is of the
kind that its routine works on.  They are kept as errors of their own, so that it can be
stated, and proved, that none of them is reached.
-/

namespace RuleEngine

/-- What a task of an evaluation does. -/
inductive Evaluate.Routine
  /-- Evaluate an operand. -/
  | operand
  /-- Apply a callee to the elements of a list. -/
  | traversal
  /-- List the keys of the host. -/
  | keys
  deriving DecidableEq, Repr

/-- Inconsistencies inside an evaluation. -/
inductive InternalFault
  /-- What a deferred operand defers is deferred itself. -/
  | unwrappedSkip
  /-- An operand points at a missing node. -/
  | danglingNode
  /-- There is nothing to evaluate. -/
  | emptyStack
  /-- A value is ready and no operation stands below it. -/
  | strayValue
  /-- A value is ready and the operation below it waits for none. -/
  | noPendingSlot
  /-- An operation is to be run before all of its arguments are there. -/
  | pendingOperand
  /-- The result for an element came to a filter that holds no element. -/
  | filterWithoutElement
  /-- A result came to a frame that did not ask for it. -/
  | cannotAbsorb
  /-- The result for an element came to a frame that goes through no list. -/
  | strayElement
  /-- The routine was given the frame of another one. -/
  | mismatched (routine : Evaluate.Routine)
  /-- The scheduler ended the evaluation for want of a task, or because of one
  too many. -/
  | scheduler (fault : Schedule.Fault)
  deriving DecidableEq, Repr

/-- The wording of an inconsistency. -/
def InternalFault.message : InternalFault → String
  | unwrappedSkip => "unwrapped skip"
  | danglingNode => "dangling node reference"
  | emptyStack => "empty evaluation stack"
  | strayValue => "value with no operation below it"
  | noPendingSlot => "value with no pending slot below it"
  | pendingOperand => "applying an operator with pending operands"
  | filterWithoutElement => "filter without element"
  | cannotAbsorb => "frame cannot absorb a result"
  | strayElement => "element result delivered to a non-each frame"
  | mismatched .operand => "eval step on a non-eval frame"
  | mismatched .traversal => "each step on a non-each frame"
  | mismatched .keys => "keys step on a non-keys frame"
  | scheduler fault => fault.message

/-- Where an operation failed. -/
structure EvalSnapshot where
  /-- The operations under way as text, the failing one last. -/
  stack : List String
  /-- The environment it failed in. -/
  env : Environment
  deriving DecidableEq

/-- Why there is no value. -/
inductive EvalError
  /-- The operation of a node is not registered. -/
  | unregistered (signature : Signature) (snapshot : EvalSnapshot)
  /-- The operation with this name failed. -/
  | operator (name : String) (cause : OperationError) (snapshot : EvalSnapshot)
  /-- A braced body stands where a value is needed. -/
  | bareBlock
  /-- The budget is used up. -/
  | budgetExceeded (budget : Nat)
  /-- The evaluation is inconsistent. -/
  | internal (fault : InternalFault)
  deriving DecidableEq

namespace EvalError

/-- The error of a run that ended without a result. -/
def ofStop : Schedule.Stop EvalError → EvalError
  | .fault (.budgetExceeded budget) => budgetExceeded budget
  | .fault fault => internal (.scheduler fault)
  | .raised e => e

/-- Where the error happened, if in an operation. -/
def snapshot? : EvalError → Option EvalSnapshot
  | unregistered _ snapshot => some snapshot
  | operator _ _ snapshot => some snapshot
  | bareBlock => none
  | budgetExceeded _ => none
  | internal _ => none

/-- The wording of an error. -/
def message : EvalError → String
  | unregistered signature _ =>
    "no operator '" ++ signature.name ++ "' takes " ++ toString signature.arity ++ " operand(s)"
  | operator _ cause _ => cause.message
  | bareBlock => "a `\x7b \x7d` block can only be used as the right operand of `=>`"
  | budgetExceeded budget => (Schedule.Fault.budgetExceeded budget).message
  | internal fault => "internal evaluator error: " ++ fault.message

end EvalError

end RuleEngine
