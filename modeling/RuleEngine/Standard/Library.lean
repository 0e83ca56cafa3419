import RuleEngine.Standard.Application
import RuleEngine.Standard.Conditional
import RuleEngine.Standard.Lookup
import RuleEngine.Standard.Sequence
import RuleEngine.Standard.Traversal
import RuleEngine.Standard.Truth

/-!
# The standard library

All standard operators and functions, and the registry made of them alone.  They
are registered like any others; evaluation knows nothing of them.

## Main statements

* `build_library` - the standard library breaks no rule of registration.

## Design notes

**Nothing is built in.**  Parsing knows the fixities of operators, and evaluation knows
demands; neither knows an operator by name.  A library without conditionals, or with
other ones, is an engine like any other, and what is proved of arbitrary registries
holds of it.

**The registry is a definition.**  That the library breaks no rule is decided by
computation, once.  The registry is then assembled from the library, so that statements
about standard operators do not have to carry along a proof that building succeeds.
-/

namespace RuleEngine

/-- The standard operators and functions. -/
def Standard.library : List Registration :=
  truthOperations ++ conditionalOperations ++ lookupOperations ++ sequenceFunctions ++
    applicationOperations ++ traversalOperations

theorem Standard.firstFault?_library : Registration.firstFault? library = none := by
  decide +kernel

/-- The registry of the standard library. -/
def Registry.standard : Registry :=
  assemble Standard.library Standard.firstFault?_library

/-- The standard library makes up a registry. -/
theorem Standard.build_library : Registry.build library = .ok Registry.standard :=
  Registry.build_of_firstFault? firstFault?_library

end RuleEngine
