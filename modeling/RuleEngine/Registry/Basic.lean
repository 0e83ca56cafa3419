import RuleEngine.Operation.Body
import RuleEngine.Operation.Pool
import RuleEngine.Table

/-!
# Registries

A registry holds the operators and functions that expressions may use.  Every
one of them has a signature, made of its name and its arity, and a body.
Operators also have a place in the syntax; functions are reached only through
their names.

## Main definitions

* `Fixity` - where the operands of an operator stand.
* `Desugaring` - how an operator may replace the node that parsing makes for it.
* `Definition` - a registered operator or function.
* `Registry` - all of them, with the operators' names in lexing order and the
  directory of functions.
* `Registry.find?` - the definition with a given signature.

## Design notes

**Tables by signature.**  Operators and functions are in one table, under name and
arity.  So `-` with one operand and `-` with two would be two entries; that a name has
one fixity nevertheless is a rule of registration.

**The order of operators.**  The names of operators are tried one after another where a
text is read, longer ones first.  The list of them is made when the registry is built,
and it is not used for anything else.

**Desugarings see the pool.**  An operator may replace its node, depending on the nodes
to which its operands lead.  What it may not do is to add further nodes, or to change
any.
-/

namespace RuleEngine

/-- Where the operands of an operator stand. -/
inductive Fixity
  /-- The form `op x`. -/
  | prefix1
  /-- The form `x op y`. -/
  | infix2
  /-- The form `op x y z`. -/
  | prefix3
  deriving DecidableEq, Repr

namespace Fixity

/-- The number of operands. -/
def arity : Fixity → Nat
  | prefix1 => 1
  | infix2 => 2
  | prefix3 => 3

/-- Whether the operator stands before its operands. -/
def isBefore : Fixity → Bool
  | prefix1 => true
  | infix2 => false
  | prefix3 => true

/-- The word for a fixity. -/
def render : Fixity → String
  | prefix1 => "prefix1"
  | infix2 => "infix2"
  | prefix3 => "prefix3"

end Fixity

/-- What a definition is. -/
inductive Role
  /-- Part of the syntax. -/
  | operator (fixity : Fixity)
  /-- Reached only by name. -/
  | function
  deriving DecidableEq, Repr

/-- What becomes of the plain node of an operator and its operands, given the
nodes made before: the node that takes its place, or the reason why there is
none. -/
abbrev Desugaring := Pool → Node → Except String Node

/-- A registered operator or function. -/
structure Definition where
  /-- Name and arity. -/
  signature : Signature
  /-- Operator or function. -/
  role : Role
  /-- What it does. -/
  body : Body
  /-- What parsing makes of its plain nodes, if anything else. -/
  desugar? : Option Desugaring

/-- The node that takes the place of a plain one. -/
def Definition.nodeFor (d : Definition) (pool : Pool) (plain : Node) : Except String Node :=
  match d.desugar? with
  | some desugar => desugar pool plain
  | none => .ok plain

/-- The operators and functions that expressions may use. -/
structure Registry where
  /-- All definitions, one for each signature. -/
  definitions : Table Definition.signature
  /-- The names of the operators in the order in which they are tried. -/
  operators : List (String × Fixity)
  /-- Operators have names. -/
  named : ∀ operator ∈ operators, operator.1 ≠ ""
  /-- The functions that have a name. -/
  directory : Directory

namespace Registry

/-- The definition with this signature. -/
def find? (registry : Registry) (signature : Signature) : Option Definition :=
  registry.definitions.find? signature

/-- The number of definitions. -/
def size (registry : Registry) : Nat :=
  registry.definitions.size

/-- Whether there is no definition. -/
def isEmpty (registry : Registry) : Bool :=
  registry.definitions.entries.isEmpty

/-- The numbers of operators and of functions. -/
def render (registry : Registry) : String :=
  "Registry(" ++ toString registry.operators.length ++ " operators, " ++
    toString (registry.size - registry.operators.length) ++ " functions)"

/-- What the bodies of the registry may look at during an evaluation. -/
def scope (registry : Registry) (host : Host) (env : Environment) : Scope :=
  ⟨host, env, registry.directory⟩

theorem signature_of_find? {registry : Registry} {signature : Signature} {d : Definition}
    (h : registry.find? signature = some d) : d.signature = signature :=
  Table.key_of_find? h

end Registry

end RuleEngine
