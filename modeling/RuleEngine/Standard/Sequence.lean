import RuleEngine.Registry.Build
import RuleEngine.Standard.Arguments

/-!
# Texts and lists

Functions on literals, and on lists where they do the same there.

## Main definitions

* `startsWith`, `endsWith`, `concatenation` - the bodies.
* `sequenceFunctions` - the registrations.

## Design notes

**Texts are compared by their characters.**  The first operand is what is looked for, so
a function with one argument bound is a condition on texts: `'StartsWith' bind 'a'`
holds of the texts that begin with `a`, and can be handed to `filter` as it is.

**One function for two kinds.**  `Concat` takes two literals or two lists.  A literal
and a list together are refused, since there is no telling whether the literal would be
meant as an element.
-/

namespace RuleEngine.Standard

/-- The texts of the two literals on which a function works. -/
def literalPair (name : String) (args : List Arg) : Except OperationError (String × String) := do
  match ← pair args with
  | (.str a, .str b) => return (a, b)
  | (a, b) => .error (.invalid ("`" ++ name ++ "` expects two literals") [a, b])

/-- Whether the second literal starts with the first one. -/
def startsWith : Body := .direct fun _ args => do
  let (start, text) ← literalPair "StartsWith" args
  return .value (.bool (start.toList.isPrefixOf text.toList))

/-- Whether the second literal ends with the first one. -/
def endsWith : Body := .direct fun _ args => do
  let (ending, text) ← literalPair "EndsWith" args
  return .value (.bool (ending.toList.isSuffixOf text.toList))

/-- Two literals or two lists, one after the other. -/
def concatenation : Body := .direct fun _ args => do
  match ← pair args with
  | (.str a, .str b) => return .value (.str (a ++ b))
  | (.list a, .list b) => return .value (.list (a ++ b))
  | (a, b) => .error (.invalid "`Concat` expects two literals or two lists" [a, b])

/-- The functions on literals and lists. -/
def sequenceFunctions : List Registration :=
  [.function "StartsWith" 2 startsWith,
    .function "EndsWith" 2 endsWith,
    .function "Concat" 2 concatenation]

end RuleEngine.Standard
