import RuleEngine.Evaluate.Frame

/-!
# Steps of an evaluation

One step fills a slot, begins the evaluation of a pending operand, runs an
operation whose arguments are all there, applies a callee to one element, or
lists one key.  Each kind of frame has a routine of its own, which fails on frames
of the other kinds.

## Main definitions

* `OperandFrame.step`, `TraversalFrame.step` - the steps of operands and traversals.
* `operandStep`, `traversalStep`, `keysStep`, `program` - the routines.
* `TraversalFrame.absorb` - how the result for an element is combined.
* `Frame.receive`, `Frame.collect` - how the result of a called task enters
  the frame that called it: as the value of an operation, or for an element.

## Design notes

**Receivers know nothing but the frame and the result.**  All elements of all
traversals have the same receiver, `Frame.collect`.  Which element a result belongs
to is what the frame says, and if a filter holds no element there is none to keep.

**Each routine checks its frame.**  A task has a routine and a frame, and nothing in
their types says that they fit.  Where they do not, the step is an internal fault.  That
this does not happen is an invariant of runs, and no assumption.

**A result may be there at once.**  A callee that replies with a value does not become a
task: the value is absorbed in the same step, through the same function that a called
task's result goes through.
-/

namespace RuleEngine.Evaluate

/-- What the steps of an evaluation do. -/
abbrev Action := Schedule.Step Routine Frame Value EvalError

/-! ### Operands -/

/-- Run the operation `signature`, just taken off the stack, on its arguments.  If its
body makes a demand, the task that meets the demand delivers the value of the
operation. -/
def OperandFrame.run (context : Context) (frame : OperandFrame) (signature : Signature)
    (args : List Arg) : Action :=
  match context.registry.find? signature with
  | none => .fail (.unregistered signature (frame.snapshot signature))
  | some d =>
    match context.registry.call (context.registry.scope context.host frame.env) d.body args with
    | .error cause => .fail (.operator signature.name cause (frame.snapshot signature))
    | .ok (.value v) => .proceed (.operand ⟨frame.env, .value v :: frame.stack⟩)
    | .ok (.demand demand) =>
      match demand.start context frame.env with
      | .error e => .fail e
      | .ok inner => .call (.operand frame) (.new demand.routine inner)

/-- Run the operation `signature` with these slots, just taken off the stack. -/
def OperandFrame.apply (context : Context) (frame : OperandFrame) (signature : Signature)
    (slots : List Slot) : Action :=
  match Slot.arguments? slots with
  | none => .fail (.internal .pendingOperand)
  | some args => frame.run context signature args

/-- One step in the evaluation of an operand. -/
def OperandFrame.step (context : Context) (frame : OperandFrame) : Action :=
  match frame.stack with
  | [] => .fail (.internal .emptyStack)
  | [.value v] => .done v
  | .value v :: .operation signature slots :: below =>
    match Slot.fill? v slots with
    | none => .fail (.internal .noPendingSlot)
    | some filled => .proceed (.operand ⟨frame.env, .operation signature filled :: below⟩)
  | .value _ :: .value _ :: _ => .fail (.internal .strayValue)
  | .operation signature slots :: below =>
    match Slot.pending? slots with
    | none => OperandFrame.apply context ⟨frame.env, below⟩ signature slots
    | some index =>
      match Layer.start context.pool frame.env index with
      | .error e => .fail e
      | .ok layer => .proceed (.operand ⟨frame.env, layer :: .operation signature slots :: below⟩)

/-! ### Elements -/

/-- The frame with the result for its current element combined. -/
def TraversalFrame.absorb (host : Host) (frame : TraversalFrame) (result : Value) :
    Except EvalError TraversalFrame :=
  match frame.traversal with
  | .map => .ok { frame with gathered := result :: frame.gathered }
  | .filter =>
    match frame.current with
    | none => .error (.internal .filterWithoutElement)
    | some item =>
      if result.isTruthy host then
        .ok { frame with current := none, gathered := item :: frame.gathered }
      else .ok { frame with current := none }
  | .flatMap =>
    match result with
    | .list results => .ok { frame with gathered := results.reverseAux frame.gathered }
    | other =>
      .error (.operator frame.traversal.render
        (.invalid "flatMap function must return a list" [other]) frame.snapshot)

/-- The result of a called task is that of the operation that called it. -/
def Frame.receive : Frame → Value → Except EvalError Frame
  | .operand frame, v => .ok (.operand { frame with stack := .value v :: frame.stack })
  | .traversal _, _ => .error (.internal .cannotAbsorb)
  | .keys _ _, _ => .error (.internal .cannotAbsorb)

/-- The result of a called task is that for the current element. -/
def Frame.collect (host : Host) : Frame → Value → Except EvalError Frame
  | .traversal frame, v => (frame.absorb host v).map .traversal
  | .operand _, _ => .error (.internal .strayElement)
  | .keys _ _, _ => .error (.internal .strayElement)

/-- The application to one element. -/
def TraversalFrame.step (context : Context) (frame : TraversalFrame) : Action :=
  match frame.items with
  | [] => .done (.list frame.gathered.reverse)
  | item :: items =>
    -- The element is parked before it is known what comes of it.
    let parked := { frame with items, current := some item }
    match context.registry.apply (context.registry.scope context.host frame.env)
        frame.callee [item] with
    | .error cause => .fail (.operator frame.traversal.render cause frame.snapshot)
    | .ok (.value v) =>
      match parked.absorb context.host v with
      | .error e => .fail e
      | .ok next => .proceed (.traversal next)
    | .ok (.demand demand) =>
      match demand.start context frame.env with
      | .error e => .fail e
      | .ok inner =>
        .call (.traversal parked) ((Schedule.Task.new demand.routine inner).withReceiver
          (Frame.collect context.host))

/-! ### Routines -/

/-- The step of a task that evaluates an operand. -/
def operandStep (context : Context) : Frame → Action
  | .operand frame => frame.step context
  | _ => .fail (.internal (.mismatched .operand))

/-- The step of a task that goes through a list. -/
def traversalStep (context : Context) : Frame → Action
  | .traversal frame => frame.step context
  | _ => .fail (.internal (.mismatched .traversal))

/-- The step of a task that lists the keys of the host. -/
def keysStep : Frame → Action
  | .keys (key :: rest) listed => .proceed (.keys rest (.str key :: listed))
  | .keys [] listed => .done (.list listed.reverse)
  | _ => .fail (.internal (.mismatched .keys))

/-- The tasks of an evaluation. -/
def program (context : Context) : Schedule.Program Routine Frame Value EvalError
  | .operand => operandStep context
  | .traversal => traversalStep context
  | .keys => keysStep

end RuleEngine.Evaluate
