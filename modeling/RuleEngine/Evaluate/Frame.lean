import RuleEngine.Evaluate.Failure
import RuleEngine.Registry.Call

/-!
# Frames of an evaluation

Evaluation is a run of tasks, and a frame is the state of one of them: it
evaluates an operand, goes through the elements of a list, or enumerates the
keys of the host.

## Main definitions

* `Context` - what all frames of an evaluation share.
* `Slot`, `Layer` - an operation whose operands are being evaluated.
* `OperandFrame`, `TraversalFrame`, `Frame` - the states of tasks.
* `Frame.start`, `Demand.start` - the frames in which tasks begin.
* `Demand.routine` - what the task for a demand does.

## Design notes

An operand is evaluated with a stack of operations.  The operation on top is the
first operand of the one below that is not ready yet, so the stack is a path
through the pool.

The result for an element may be that of a task, and then it comes back to a frame
that has been waiting for it.  The element itself waits in the frame, as its
`current` one, and a filter takes it from there when the result has come.
-/

namespace RuleEngine

/-- What all frames of an evaluation share. -/
structure Context where
  /-- The data of the host. -/
  host : Host
  /-- The operators and functions. -/
  registry : Registry
  /-- The nodes of the expression. -/
  pool : Pool

namespace Evaluate

/-- An operand of an operation under way. -/
inductive Slot
  /-- The argument is there. -/
  | ready (arg : Arg)
  /-- The node with this index has to be evaluated first. -/
  | pending (index : Nat)
  deriving DecidableEq

/-- One layer of the stack of an operand's evaluation. -/
inductive Layer
  /-- An operation under way. -/
  | operation (signature : Signature) (slots : List Slot)
  /-- A value. -/
  | value (v : Value)
  deriving DecidableEq

namespace Slot

/-- The slot of an operand in an environment. -/
def ofOperand (env : Environment) : Operand → Slot
  | .literal text => .ready (.value (.str text))
  | .node index => .pending index
  | .block inner => .ready (.block inner)
  | .skip inner => .ready (.deferred ⟨inner, env⟩)

/-- The form in which slots are shown. -/
def render : Slot → String
  | pending index => (Operand.node index).render
  | ready (.value v) => v.render
  | ready (.deferred suspension) => (Operand.skip suspension.operand).render
  | ready (.block operand) => (Operand.block operand).render

/-- The slots with the first pending one filled by a value. -/
def fill? (v : Value) : List Slot → Option (List Slot)
  | [] => none
  | pending _ :: rest => some (ready (.value v) :: rest)
  | ready arg :: rest => (fill? v rest).map (ready arg :: ·)

/-- The node of the first pending slot. -/
def pending? : List Slot → Option Nat
  | [] => none
  | pending index :: _ => some index
  | ready _ :: rest => pending? rest

/-- The arguments, if no slot is pending. -/
def arguments? : List Slot → Option (List Arg)
  | [] => some []
  | pending _ :: _ => none
  | ready arg :: rest => (arguments? rest).map (arg :: ·)

end Slot

namespace Layer

/-- The operation of a node, with nothing evaluated yet. -/
def ofNode (env : Environment) (node : Node) : Layer :=
  .operation node.signature (node.operands.map (Slot.ofOperand env))

/-- The operation of the node with this index. -/
def start (pool : Pool) (env : Environment) (index : Nat) : Except EvalError Layer :=
  match pool.get? index with
  | none => .error (.internal .danglingNode)
  | some node => .ok (ofNode env node)

/-- The form in which layers are shown. -/
def render : Layer → String
  | operation signature slots =>
    signature.name ++ "(" ++ ", ".intercalate (slots.map Slot.render) ++ ")"
  | value v => v.render

end Layer

/-- The evaluation of an operand. -/
structure OperandFrame where
  /-- The environment. -/
  env : Environment
  /-- The operations under way, top first. -/
  stack : List Layer
  deriving DecidableEq

/-- The application of a callee to the elements of a list. -/
structure TraversalFrame where
  /-- The environment of every application. -/
  env : Environment
  /-- What is applied. -/
  callee : Callee
  /-- How the results are combined. -/
  traversal : Traversal
  /-- The elements to come. -/
  items : List Value
  /-- The element that the callee was last applied to, unless it has been taken to
  be kept or left out. -/
  current : Option Value
  /-- The combined results so far, latest first. -/
  gathered : List Value
  deriving DecidableEq

/-- The state of a task of an evaluation. -/
inductive Frame
  /-- An operand is evaluated. -/
  | operand (frame : OperandFrame)
  /-- A callee is applied to elements. -/
  | traversal (frame : TraversalFrame)
  /-- The keys to come, and those listed so far, latest first. -/
  | keys (keys : List String) (listed : List Value)
  deriving DecidableEq

/-- What is shown of an operand's evaluation when the operation `signature`, just
taken off the stack, fails. -/
def OperandFrame.snapshot (frame : OperandFrame) (signature : Signature) : EvalSnapshot :=
  ⟨(signature.render :: frame.stack.map Layer.render).reverse, frame.env⟩

/-- What is shown when an application to an element fails. -/
def TraversalFrame.snapshot (frame : TraversalFrame) : EvalSnapshot :=
  ⟨[frame.traversal.render ++ " " ++ frame.callee.toValue.render], frame.env⟩

/-- The frame in which the evaluation of an operand begins.  Here what is deferred
has to be evaluated, and a braced body cannot be. -/
def Frame.start (pool : Pool) (env : Environment) (x : Operand) : Except EvalError Frame :=
  match x.core with
  | .literal text => .ok (.operand ⟨env, [.value (.str text)]⟩)
  | .node index =>
    match Layer.start pool env index with
    | .error e => .error e
    | .ok layer => .ok (.operand ⟨env, [layer]⟩)
  | .block _ => .error .bareBlock
  | .skip _ => .error (.internal .unwrappedSkip)

theorem Frame.start_node (pool : Pool) (env : Environment) (index : Nat) :
    Frame.start pool env (.node index) =
      match Layer.start pool env index with
      | .error e => .error e
      | .ok layer => .ok (.operand ⟨env, [layer]⟩) := rfl

theorem Frame.start_skip (pool : Pool) (env : Environment) (inner : Operand) :
    Frame.start pool env (.skip inner) = Frame.start pool env inner := rfl

end Evaluate

/-- What the task for a demand does. -/
def Demand.routine : Demand → Evaluate.Routine
  | force _ => .operand
  | traverse _ _ _ => .traversal
  | keys => .keys

/-- The frame in which it begins, if the demand was made in `env`. -/
def Demand.start (context : Context) (env : Environment) :
    Demand → Except EvalError Evaluate.Frame
  | force suspension => Evaluate.Frame.start context.pool suspension.env suspension.operand
  | traverse items callee traversal => .ok (.traversal ⟨env, callee, traversal, items, none, []⟩)
  | keys => .ok (.keys context.host.keys [])

end RuleEngine
