import RuleEngine.Dictionary
import RuleEngine.Value.Basic

/-!
# Host data and environments

An expression is evaluated against the data of a host, which it reaches through
keys, and in an environment, which gives values to names.

## Main definitions

* `Host` - what evaluation may ask of the host's data.
* `Record` - host data held in a dictionary, and `Record.toHost`.
* `Environment` - the values of names, and `Environment.render`.
* `Value.isTruthy` - the truth of a value; that of a literal is up to the host.

## Design notes

**The host is asked, not read.**  Evaluation knows a key or does not; it has no access
to the data as a whole but for the list of keys.  Any data can be a host that answers
these questions, and `Record.toHost` is the answer for a dictionary.

**Environments grow inwards.**  An application of a sub-expression adds a name to the
environment in which its body is evaluated.  Nothing is ever taken away, so a name that
is bound again is the inner one until the application is over.

**Truth of literals.**  `true` and `false` have the truth of their names.  Any other
literal is true if the host has a value at this key, whatever the value is.
-/

namespace RuleEngine

/-- The data that an expression is evaluated against. -/
structure Host where
  /-- The value at a key. -/
  get? : String → Option Value
  /-- The keys, in the order in which they are enumerated. -/
  keys : List String
  /-- Whether there is a value at a key. -/
  has : String → Bool := fun key => (get? key).isSome

/-- Host data held in a dictionary. -/
abbrev Record := Dictionary Value

/-- The record as host data; its keys are enumerated in order. -/
def Record.toHost (record : Record) : Host where
  get? := record.get?
  keys := record.keys

/-- The values of the names that an expression may refer to. -/
abbrev Environment := Dictionary Value

/-- The form `{name = value, name = value}`. -/
def Environment.render (env : Environment) : String :=
  let binding := fun (name, value) => name ++ " = " ++ Value.render value
  "\x7b" ++ ", ".intercalate (env.entries.map binding) ++ "\x7d"

/-- The truth of a value.  The literals `true` and `false` say it themselves and
any other literal is true if the host has it as a key; lists of any kind are
true unless they are empty; whatever can be applied is true. -/
def Value.isTruthy (host : Host) : Value → Bool
  | bool truth => truth
  | str text => if text = "true" then true else if text = "false" then false else host.has text
  | list items => !items.isEmpty
  | function _ _ => true
  | subExpr _ _ => true
  | args items => !items.isEmpty

end RuleEngine
