import RuleEngine.Registry.Build
import RuleEngine.Standard.Arguments

/-!
# Going through lists

Operators that apply a function to the elements of a list, and those that ask
for the truth of all of them.

## Main definitions

* `traversal`, `reduction` - the bodies.
* `traversalOperations` - the registrations.

## Design notes

**Elements are no business of the body.**  A body that goes through a list does not
apply the callee itself: it demands that this be done, element by element, which takes
steps of its own.  What the results are combined to is said by the name of the operator,
and evaluation knows these three ways only.

**A callee of one argument.**  It is checked before the first element whether the callee
takes just one more argument.  An empty list is thus no excuse for a callee that does
not fit.

**Reduction is immediate.**  `reduce` asks for the truth of elements that are values
already, and so it has its result at once.
-/

namespace RuleEngine.Standard

/-- The callee of one argument on the right, applied to each element of the list
on the left. -/
def traversal (how : Traversal) : Body := .direct fun scope args => do
  match ← pair args with
  | (.list items, f) =>
    let callee ← scope.callee f how.render
    if callee.missing = 1 then return .demand (.traverse items callee how)
    else
      .error (.invalid ("`" ++ how.render ++ "` needs a function of one argument")
        [callee.toValue])
  | (other, f) =>
    .error (.invalid ("LHS operand of `" ++ how.render ++ "` must be a list") [other, f])

/-- Whether all elements of a list are true, or any of them. -/
def reduction : Body := .direct fun scope args => do
  match ← pair args with
  | (.list items, how) =>
    if how = .str "all" then return .value (.bool (items.all (·.isTruthy scope.host)))
    else if how = .str "any" then return .value (.bool (items.any (·.isTruthy scope.host)))
    else .error (.unknownReduction how)
  | (other, how) => .error (.invalid "LHS operand of `reduce` must be a list" [other, how])

/-- The operators on lists. -/
def traversalOperations : List Registration :=
  [.operator "map" .infix2 (some (traversal .map)) none,
    .operator "filter" .infix2 (some (traversal .filter)) none,
    .operator "flatMap" .infix2 (some (traversal .flatMap)) none,
    .operator "reduce" .infix2 (some reduction) none]

end RuleEngine.Standard
