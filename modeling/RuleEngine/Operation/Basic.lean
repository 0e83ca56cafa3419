/-!
# Operands and nodes

A compiled expression is a pool of operation nodes.  Each node applies one
operation, known by its name and its number of operands, to operands that are
literals or point at other nodes of the pool.

## Main definitions

* `Signature` - the name and the arity under which an operation is registered.
* `Operand` - a literal, a node of the pool, a braced body, or an operand whose
  evaluation waits until it is asked for.
* `Node` - an operation applied to operands.

## Design notes

The arity in the signature of a node is the number of its operands and is not
stored beside them, so the two cannot differ.

**Deferral is a property of an operand.**  Whether an operand is evaluated before its
operation is not a matter of the operation, but of how the node was made.  So evaluation
treats all operations alike, and a desugaring decides which operands wait.

**Braces are kept.**  A braced operand has no value.  It is a body for `=>`, and
everywhere else it is an error, which the evaluation reports.
-/

namespace RuleEngine

/-- The name and the arity under which an operation is registered. -/
structure Signature where
  /-- The name. -/
  name : String
  /-- The number of operands. -/
  arity : Nat
  deriving DecidableEq, Repr

/-- The form `name#arity`. -/
def Signature.render (signature : Signature) : String :=
  signature.name ++ "#" ++ toString signature.arity

/-- What an operation is applied to. -/
inductive Operand
  /-- A quoted literal. -/
  | literal (text : String)
  /-- The node with this index in the pool. -/
  | node (index : Nat)
  /-- A body in braces, which is never evaluated in place. -/
  | block (inner : Operand)
  /-- An operand that is evaluated only if the operation asks for it. -/
  | skip (inner : Operand)
  deriving DecidableEq, Repr

namespace Operand

/-- The form in which operands are shown. -/
def render : Operand → String
  | literal text => "'" ++ text ++ "'"
  | node index => "#" ++ toString index
  | block inner => "\x7b" ++ inner.render ++ "\x7d"
  | skip inner => "~" ++ inner.render

/-- The node that an operand leads to, through any braces and deferrals. -/
def reference? : Operand → Option Nat
  | literal _ => none
  | node index => some index
  | block inner => inner.reference?
  | skip inner => inner.reference?

/-- The operand without the deferrals around it. -/
def core : Operand → Operand
  | skip inner => inner.core
  | x => x

end Operand

/-- An operation applied to operands. -/
structure Node where
  /-- The name of the operation. -/
  name : String
  /-- What it is applied to. -/
  operands : List Operand
  deriving DecidableEq, Repr

namespace Node

/-- The signature under which the operation of the node has to be registered. -/
def signature (node : Node) : Signature :=
  ⟨node.name, node.operands.length⟩

/-- The nodes that the operands lead to. -/
def references (node : Node) : List Nat :=
  node.operands.filterMap Operand.reference?

/-- The form `name(operand, operand)`. -/
def render (node : Node) : String :=
  node.name ++ "(" ++ ", ".intercalate (node.operands.map Operand.render) ++ ")"

@[simp] theorem arity_signature (node : Node) : node.signature.arity = node.operands.length := rfl

@[simp] theorem name_signature (node : Node) : node.signature.name = node.name := rfl

end Node

end RuleEngine
