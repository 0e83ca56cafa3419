import RuleEngine.Registry.Build
import RuleEngine.Standard.Arguments

/-!
# Looking things up

Operators that look up a literal: in the host's data, in the environment, or in
a list.

## Main definitions

* `dereference`, `variableValue`, `reserved`, `membership` - the bodies.
* `lookupOperations` - the registrations.

## Design notes

**Three places to look.**  The data of the host is looked up by `*`, names of the
environment by `v`, and reserved words by `$`.  Each of these fails with an error of its
own where nothing is found, since the author has made a different mistake in each case.

**Keys are not listed at once.**  `$'KEYS'` is a demand and no value: the keys of a host
may be many, so they are gone through step by step and count towards the budget.
-/

namespace RuleEngine.Standard

/-- The text of a literal on which the operator `op` works. -/
def literal (op : String) : Value → Except OperationError String
  | .str text => .ok text
  | other => .error (.invalid ("operand of `" ++ op ++ "` must be a literal") [other])

/-- The host's value at a key. -/
def dereference : Body := .direct fun scope args => do
  let key ← literal "*" (← single args)
  match scope.host.get? key with
  | some v => return .value v
  | none => .error (.absentKey key)

/-- The value of a name. -/
def variableValue : Body := .direct fun scope args => do
  let name ← literal "v" (← single args)
  match scope.env.get? name with
  | some v => return .value v
  | none => .error (.unboundName name)

/-- What a reserved word stands for: `KEYS` are the keys of the host. -/
def reserved : Body := .direct fun _ args => do
  let v ← single args
  if v = .str "KEYS" then return .demand .keys
  else .error (.invalid "Unrecognized symbol for `$`" [v])

/-- Whether a value is an element of a list. -/
def membership : Body := .direct fun _ args => do
  match ← pair args with
  | (needle, .list items) => return .value (.bool (items.contains needle))
  | (needle, other) => .error (.invalid "RHS operand of `in` must be a list" [needle, other])

/-- The operators that look up a literal. -/
def lookupOperations : List Registration :=
  [.operator "*" .prefix1 (some dereference) none,
    .operator "v" .prefix1 (some variableValue) none,
    .operator "$" .prefix1 (some reserved) none,
    .operator "in" .infix2 (some membership) none]

end RuleEngine.Standard
