import RuleEngine.Registry.Build
import RuleEngine.Standard.Arguments

/-!
# Truth

Operators on truth.  Any value has a truth, see `Value.isTruthy`; `&&` and `||`
yield one of their operands and evaluate the second one only if it decides.

## Main definitions

* `truth`, `negation`, `exclusion`, `equality`, `conjunction`, `disjunction` -
  the bodies.
* `deferSecond`, `deferSecondAs` - the desugarings of the operators that may
  leave their second operand unevaluated.
* `truthOperations` - the registrations.

## Design notes

**Operands as values of connectives.**  A conjunction of two literals is one of the
literals, and not a truth value.  The prefix `bool` gives the truth of it.

**Waiting is up to the desugaring.**  The body of a connective takes whatever it is
given as its second argument, a value or an operand that waits.  That an operand waits
is decided when the node is made, and the words `and` and `or` make the same nodes as
the signs, so they cannot be told apart any more.

**Equality is that of values.**  It does not look at truth: `true` and a literal of that
name are different.
-/

namespace RuleEngine.Standard

/-- The truth of the operand. -/
def truth : Body := .direct fun scope args => do
  let v ← single args
  return .value (.bool (v.isTruthy scope.host))

/-- The opposite of the truth of the operand. -/
def negation : Body := .direct fun scope args => do
  let v ← single args
  return .value (.bool (!v.isTruthy scope.host))

/-- Whether just one of two operands is true. -/
def exclusion : Body := .direct fun scope args => do
  let (a, b) ← pair args
  return .value (.bool (a.isTruthy scope.host != b.isTruthy scope.host))

/-- Whether two operands are the same value. -/
def equality : Body := .direct fun _ args => do
  let (a, b) ← pair args
  return .value (.bool (a = b))

/-- The first operand if it is not true, otherwise the second one. -/
def conjunction : Body := .direct fun scope args => do
  let (left, right) ← pairWithArg args
  if left.isTruthy scope.host then right.outcome else return .value left

/-- The first operand if it is true, otherwise the second one. -/
def disjunction : Body := .direct fun scope args => do
  let (left, right) ← pairWithArg args
  if left.isTruthy scope.host then return .value left else right.outcome

/-- The operation `name` on the same operands, of which the second one waits. -/
def deferSecondAs (name : String) : Desugaring := fun _ plain =>
  match plain.operands with
  | left :: right :: _ => .ok ⟨name, [left, .skip right]⟩
  | _ => .error ("`" ++ name ++ "` takes two operands")

/-- The same operation, with its second operand waiting. -/
def deferSecond : Desugaring := fun pool plain => deferSecondAs plain.name pool plain

/-- The operators and functions on truth. -/
def truthOperations : List Registration :=
  [.operator "bool" .prefix1 (some truth) none,
    .operator "!" .prefix1 (some negation) none,
    .operator "^" .infix2 (some exclusion) none,
    .operator "==" .infix2 (some equality) none,
    .operator "&&" .infix2 (some conjunction) (some deferSecond),
    .operator "||" .infix2 (some disjunction) (some deferSecond),
    .operator "and" .infix2 (some conjunction) (some (deferSecondAs "&&")),
    .operator "or" .infix2 (some disjunction) (some (deferSecondAs "||")),
    .function "Not" 1 negation]

end RuleEngine.Standard
