import RuleEngine.Operation.Basic

/-!
# Pools of nodes

A `Pool` holds the nodes of one compiled expression.  Nodes are only added at
the end, and parsing adds only those that refer to nodes already there.

## Main definitions

* `Pool.get?` - the node with a given index.
* `Pool.push` - add a node.
* `Pool.accepts` - whether all references of a node exist.

## Main statements

* `get?_push` - the added node has the next index, and no other one changes.

## Design notes

**References are indices.**  A node refers to others by their places in the pool.  As
nodes are never changed or removed, an index that was valid stays valid, and leads to
the same node.

**Asked, not assumed.**  A desugaring may answer with any node at all.  Whether it
refers to nodes of the pool only is asked before it is added, through braces and
deferrals; this is what keeps pools acyclic.
-/

namespace RuleEngine

/-- The nodes of an expression, in the order in which they were made. -/
structure Pool where
  /-- The nodes. -/
  nodes : Array Node
  deriving DecidableEq, Repr

namespace Pool

/-- The pool without nodes. -/
def empty : Pool :=
  ⟨#[]⟩

/-- The number of nodes. -/
def size (pool : Pool) : Nat :=
  pool.nodes.size

/-- Whether there is no node. -/
def isEmpty (pool : Pool) : Bool :=
  pool.nodes.isEmpty

/-- The node with this index. -/
def get? (pool : Pool) (index : Nat) : Option Node :=
  pool.nodes[index]?

/-- The node that an operand points at directly. -/
def pointee? (pool : Pool) : Operand → Option Node
  | .node index => pool.get? index
  | _ => none

/-- Whether a node refers only to nodes of the pool. -/
def accepts (pool : Pool) (node : Node) : Bool :=
  node.references.all (· < pool.size)

/-- Add a node; its index is the former size. -/
def push (pool : Pool) (node : Node) : Pool :=
  ⟨pool.nodes.push node⟩

/-- One line per node, each as `#index: name(operands)`. -/
def render (pool : Pool) : String :=
  String.join (pool.nodes.toList.zipIdx.map fun (node, index) =>
    (Operand.node index).render ++ ": " ++ node.render ++ "\n")

theorem accepts_iff {pool : Pool} {node : Node} :
    pool.accepts node ↔ ∀ i ∈ node.references, i < pool.size := by
  simp [accepts]

@[simp] theorem size_empty : empty.size = 0 := rfl

@[simp] theorem size_push (pool : Pool) (node : Node) : (pool.push node).size = pool.size + 1 :=
  Array.size_push _

theorem get?_push (pool : Pool) (node : Node) (index : Nat) :
    (pool.push node).get? index = if index = pool.size then some node else pool.get? index :=
  Array.getElem?_push

theorem get?_eq_none_iff {pool : Pool} {index : Nat} :
    pool.get? index = none ↔ pool.size ≤ index :=
  Array.getElem?_eq_none_iff

end Pool

end RuleEngine
