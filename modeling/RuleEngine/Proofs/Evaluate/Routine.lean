import RuleEngine.Evaluate.Run

/-!
# Routines and their frames

A task names its routine and holds a frame, and each of the three routines fails on a
frame of another one.  What a task does is therefore decided by its frame alone, or it
is this failure.  The rest of the theory is about the frame: it speaks of the step that
a frame takes under the routine that it is made for, and leaves the other two to the
present module.

The step of an operation on top of the stack is treated likewise.  It looks for a
pending slot first and takes the arguments out of the slots later, with a failure if one
of them is pending after all.  Here both are a single question to the slots, and the
failure is seen not to happen.

## Main definitions

* `Frame.routine`, `Frame.step` - the routine of a frame, and its step.
* `Fits` - the task runs the routine of its frame.
* `Matched` - what the steps of such tasks come to.
* `Slot.arguments` - all arguments, or the first node that has to be evaluated.

## Main statements

* `program_eq` - a routine takes the frame's step or fails on it.
* `matched_step` - a frame's step leaves its routine, and called tasks fit.
* `OperandFrame.step_operation` - the step of an operation on top, with one question.
-/

namespace RuleEngine.Evaluate

/-! ### Routines -/

/-- The routine that a frame is made for. -/
def Frame.routine : Frame → Routine
  | operand _ => .operand
  | traversal _ => .traversal
  | keys _ _ => .keys

/-- The step of a frame under the routine that it is made for. -/
def Frame.step (context : Context) (frame : Frame) : Action :=
  program context frame.routine frame

/-- The task runs the routine of its frame. -/
def Fits (t : Schedule.Task Routine Frame Value EvalError) : Prop :=
  t.routine = t.state.routine

/-- What a step comes to if it leaves tasks that run the routines of their frames: the
task itself, whose routine is given, and a task that it calls. -/
def Matched (routine : Routine) : Action → Prop
  | .proceed next => next.routine = routine
  | .call next inner => next.routine = routine ∧ Fits inner
  | .done _ => True
  | .fail _ => True

variable {context : Context} {env : Environment}

/-- Under its own routine, the frame of an operand takes the step of operands. -/
@[simp] theorem Frame.step_operand (f : OperandFrame) :
    Frame.step context (.operand f) = f.step context := rfl

/-- Under its own routine, the frame of a traversal takes the step of traversals. -/
@[simp] theorem Frame.step_traversal (f : TraversalFrame) :
    Frame.step context (.traversal f) = f.step context := rfl

/-- **What a routine makes of a frame** is the frame's own step, unless the frame is made for
another routine.  Then it is the one failure that names the routine. -/
theorem program_eq (context : Context) (routine : Routine) (frame : Frame) :
    program context routine frame =
      if routine = frame.routine then frame.step context
      else .fail (.internal (.mismatched routine)) := by
  cases routine <;> cases frame <;> rfl

/-- A routine that does not fail on a frame takes the frame's own step.  Where a run is known to
go on, its tasks may be taken to fit. -/
theorem step_of_program {routine : Routine} {frame : Frame} {action : Action}
    (stepped : program context routine frame = action) (fine : ∀ e, action ≠ .fail e) :
    frame.step context = action := by
  rw [program_eq] at stepped
  split at stepped
  · exact stepped
  · exact absurd stepped.symm (fine _)

/-- The frame in which an operand begins is one that evaluates it, whether the operand is a
literal, a node, or one of these behind any number of delays. -/
theorem Frame.routine_of_start {pool : Pool} {x : Operand} {frame : Frame}
    (started : Frame.start pool env x = .ok frame) : frame.routine = .operand := by
  unfold Frame.start at started
  split at started
  · cases started
    rfl
  · split at started <;> cases started
    rfl
  · cases started
  · cases started

/-- The frame in which a demand begins is one of its routine. -/
theorem routine_of_demand_start {demand : Demand} {frame : Frame}
    (started : demand.start context env = .ok frame) : frame.routine = demand.routine := by
  cases demand with
  | force suspension => exact Frame.routine_of_start started
  | traverse items callee how =>
      cases started
      rfl
  | keys =>
      cases started
      rfl

/-- An operation that is run leaves its task with the routine of operands.  What its body demands
is done by a task with the routine of the demand, in a frame made for it. -/
theorem OperandFrame.matched_run (context : Context) (f : OperandFrame) (signature : Signature)
    (args : List Arg) : Matched .operand (f.run context signature args) := by
  unfold OperandFrame.run
  cases context.registry.find? signature with
  | none => trivial
  | some d =>
      dsimp only
      cases context.registry.call (context.registry.scope context.host f.env) d.body args with
      | error cause => trivial
      | ok outcome =>
          cases outcome with
          | value v => rfl
          | demand demand =>
              dsimp only
              cases started : demand.start context f.env with
              | error e => trivial
              | ok inner => exact ⟨rfl, (routine_of_demand_start started).symm⟩

/-- So does every step in the evaluation of an operand, most of which only change the stack. -/
theorem OperandFrame.matched_step (context : Context) (f : OperandFrame) :
    Matched .operand (f.step context) := by
  unfold OperandFrame.step
  split
  · trivial
  · trivial
  · split
    · trivial
    · rfl
  · trivial
  · split
    · unfold OperandFrame.apply
      split
      · trivial
      · exact OperandFrame.matched_run context _ _ _
    · split
      · trivial
      · rfl

/-- The same for traversals: an element that makes a demand has a task of its own, and the
traversal remains one. -/
theorem TraversalFrame.matched_step (context : Context) (f : TraversalFrame) :
    Matched .traversal (f.step context) := by
  unfold TraversalFrame.step
  split
  · trivial
  · dsimp only
    split
    · trivial
    · split
      · trivial
      · rfl
    · split
      · trivial
      · rename_i inner started
        exact ⟨rfl, (routine_of_demand_start started).symm⟩

/-- **A step leaves the routine of its frame**, and a task that it calls fits as well.  As the
first task of an evaluation fits, all tasks of a run do, and none of them ever fails on a frame of
another kind. -/
theorem matched_step (context : Context) (frame : Frame) :
    Matched frame.routine (frame.step context) := by
  cases frame with
  | operand f => exact f.matched_step context
  | traversal f => exact f.matched_step context
  | keys keys listed =>
      cases keys with
      | nil => trivial
      | cons key rest => rfl

/-! ### Slots -/

/-- The arguments if all are there, otherwise the node of the first pending slot. -/
def Slot.arguments : List Slot → Except Nat (List Arg)
  | [] => .ok []
  | pending index :: _ => .error index
  | ready arg :: rest => (arguments rest).map (arg :: ·)

/-- Behind an argument that is there, the arguments are all there if those of the other slots
are. -/
theorem Slot.arguments_ready_cons_eq_ok_iff {arg : Arg} {rest : List Slot} {args : List Arg} :
    Slot.arguments (.ready arg :: rest) = .ok args ↔
      ∃ others, Slot.arguments rest = .ok others ∧ arg :: others = args := by
  rw [Slot.arguments]
  cases Slot.arguments rest <;> simp [Except.map]

/-- Behind an argument that is there, the first pending slot is that of the other slots. -/
theorem Slot.arguments_ready_cons_eq_error_iff {arg : Arg} {rest : List Slot} {index : Nat} :
    Slot.arguments (.ready arg :: rest) = .error index ↔ Slot.arguments rest = .error index := by
  rw [Slot.arguments]
  cases Slot.arguments rest <;> simp [Except.map]

/-- Nothing is pending exactly if there are arguments.  The two questions that the step asks of
the slots, one after the other, therefore have no third answer. -/
theorem Slot.arguments_cases (slots : List Slot) :
    match Slot.arguments slots with
    | .ok args => Slot.pending? slots = none ∧ Slot.arguments? slots = some args
    | .error index => Slot.pending? slots = some index := by
  induction slots with
  | nil => exact ⟨rfl, rfl⟩
  | cons slot rest ih =>
      cases slot with
      | pending index => rfl
      | ready arg =>
          rw [Slot.arguments]
          cases found : Slot.arguments rest with
          | error index =>
              rw [found] at ih
              exact ih
          | ok args =>
              rw [found] at ih
              exact ⟨ih.1, by rw [Slot.arguments?, ih.2]; rfl⟩

/-- **The step of an operation on top**: it is run on its arguments, or the first node
that it waits for is begun.  It is never run with an operand pending. -/
theorem OperandFrame.step_operation (context : Context) (env : Environment)
    (signature : Signature) (slots : List Slot) (below : List Layer) :
    OperandFrame.step context ⟨env, .operation signature slots :: below⟩ =
      match Slot.arguments slots with
      | .ok args => OperandFrame.run context ⟨env, below⟩ signature args
      | .error index =>
        match Layer.start context.pool env index with
        | .error e => .fail e
        | .ok layer => .proceed (.operand ⟨env, layer :: .operation signature slots :: below⟩) := by
  have all := Slot.arguments_cases slots
  cases found : Slot.arguments slots with
  | ok args =>
      rw [found] at all
      simp only [OperandFrame.step, OperandFrame.apply, all.1, all.2]
  | error index =>
      rw [found] at all
      cases started : Layer.start context.pool env index <;>
        simp only [OperandFrame.step, all, started]

end RuleEngine.Evaluate
