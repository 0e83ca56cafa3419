import Mathlib.Data.List.Forall2
import RuleEngine.Proofs.Evaluate.Simulation
import RuleEngine.Proofs.Parse.Fold
import RuleEngine.Proofs.Schedule.Origin
import RuleEngine.Standard.Library

/-!
# The stack of an operand's evaluation

The stack of operations under way is a path through the pool.  At the bottom stands the
operation with which the evaluation began, and every other one is the first operand that
the one below waits for.  In a pool without cycles the path descends, so it has no more
operations than the pool has nodes.

An operation on the path has its first operands supplied; the others are what they were
when it came onto the stack.  So a value on top of the path can only go to the operand
that it is the value of.  When all operands are supplied the operation leaves the stack,
and its value takes its place: at once, or when a called task is done.  While the task
runs, the path below the operation is all that there is.

## Main definitions

* `Layer.Awaits`, `Layer.Complete` - an operation that waits for a node, and one that
  waits for none.
* `Path` - the operations from the one that an evaluation began with down to one that is
  awaited.
* `Descent` - the stacks of an evaluation at work: a path and what may stand on it.
* `Located` - what the error of an operation shows.
* `Traced` - what there is to say of an evaluation that stands among the tasks of a run.

## Main statements

* `Descent.length_le` - a stack has at most one entry more than the pool has nodes.
* `Descent.onward` - a step keeps to the descent, or fails at the operation on top.
* `exists_traced_of_reaches` - in every state that a run reaches, every operand's
  evaluation is at a stack of its descent, or waits with the path below.

The path belongs to one evaluation only.  When a deferred operand is forced its
evaluation is a task of its own, which begins a path of its own.
-/

namespace RuleEngine

namespace Evaluate

open Schedule (Origin Steady)
open Semantics (Task task partialLayer scopeIn)

variable {context : Context} {pool : Pool} {env : Environment} {x : Operand}
variable {stack below : List Layer} {layer : Layer} {i j : Nat} {node : Node}

/-! ### Operations on the stack -/

/-- An argument for an operand: the value of a node, and what any other operand is from
the beginning. -/
inductive Supplies (env : Environment) : Operand → Arg → Prop
  | value (i : Nat) (v : Value) : Supplies env (.node i) (.value v)
  | ready {x : Operand} {arg : Arg} : Slot.ofOperand env x = .ready arg → Supplies env x arg

/-- The operation of the node `i`, which waits for the node `j`: the operands before that
are supplied, and those after it are as in the node. -/
inductive Layer.Awaits (pool : Pool) (env : Environment) (i j : Nat) : Layer → Prop
  | intro {node : Node} {before after : List Operand} {args : List Arg} :
      pool.get? i = some node → node.operands = before ++ .node j :: after →
      List.Forall₂ (Supplies env) before args →
      Awaits pool env i j (partialLayer env node.signature args (.node j :: after))

/-- The operation of the node `i`, with all operands supplied. -/
inductive Layer.Complete (pool : Pool) (env : Environment) (i : Nat) : Layer → Prop
  | intro {node : Node} {args : List Arg} : pool.get? i = some node →
      List.Forall₂ (Supplies env) node.operands args →
      Complete pool env i (partialLayer env node.signature args [])

/-- The operations, top first, from the one that an evaluation of `x` began with down to
the one of the awaited node. -/
inductive Path (pool : Pool) (env : Environment) (x : Operand) : List Layer → Nat → Prop
  /-- The evaluation begins with the node that the operand leads to. -/
  | start {i : Nat} : x.core = .node i → Path pool env x [] i
  /-- The operation of the awaited node awaits an earlier one. -/
  | down {below : List Layer} {layer : Layer} {i j : Nat} : Path pool env x below i →
      layer.Awaits pool env i j → j < i → Path pool env x (layer :: below) j

/-- The stacks, top first, of an evaluation of `x` that waits for no other task. -/
inductive Descent (pool : Pool) (env : Environment) (x : Operand) : List Layer → Prop
  /-- A literal is its own value. -/
  | literal {text : String} : x.core = .literal text →
      Descent pool env x [.value (.str text)]
  /-- The operation on top awaits a node. -/
  | awaiting {below : List Layer} {layer : Layer} {i : Nat} :
      Path pool env x (layer :: below) i → Descent pool env x (layer :: below)
  /-- The awaited node is ready to be run. -/
  | complete {below : List Layer} {layer : Layer} {i : Nat} : Path pool env x below i →
      layer.Complete pool env i → Descent pool env x (layer :: below)
  /-- The awaited node has its value. -/
  | value {below : List Layer} {i : Nat} (v : Value) : Path pool env x below i →
      Descent pool env x (.value v :: below)

/-- No two operations on a path are of the same node, since each of them waits for an earlier one.
So the path to a node is no longer than there are nodes from that node on. -/
theorem Path.length_le (h : Path pool env x stack i) : stack.length ≤ pool.size - i := by
  induction h with
  | start _ => exact Nat.zero_le _
  | @down below layer i j _ waits less ih =>
      obtain ⟨found, -, -⟩ := waits
      have inside := Pool.lt_of_get? found
      rw [List.length_cons]
      omega

/-- **A stack has at most one entry more than the pool has nodes**, the one more being a value on
top. -/
theorem Descent.length_le (h : Descent pool env x stack) : stack.length ≤ pool.size + 1 := by
  cases h with
  | literal _ => exact Nat.le_add_left 1 _
  | awaiting path =>
      have := path.length_le
      omega
  | complete path ready =>
      have := path.length_le
      rw [List.length_cons]
      omega
  | value v path =>
      have := path.length_le
      rw [List.length_cons]
      omega

/-! ### Operations that come onto the stack or get an argument -/

/-- A node leads to the nodes among its operands. -/
theorem mem_references_of_mem_operands (h : Operand.node j ∈ node.operands) :
    j ∈ node.references :=
  List.mem_filterMap.mpr ⟨_, h, rfl⟩

/-- An operation with its first operands supplied waits for an earlier node, or for none.  The
first slot that is pending tells which. -/
theorem awaits_or_complete (acyclic : pool.Acyclic) (found : pool.get? i = some node)
    (before : List Operand) {after : List Operand} {args : List Arg}
    (split : node.operands = before ++ after) (supplied : List.Forall₂ (Supplies env) before args) :
    (∃ j < i, (partialLayer env node.signature args after).Awaits pool env i j) ∨
      (partialLayer env node.signature args after).Complete pool env i := by
  induction after generalizing before args with
  | nil =>
      rw [List.append_nil] at split
      exact .inr (.intro found (split ▸ supplied))
  | cons y after ih =>
      cases slot : Slot.ofOperand env y with
      | ready arg =>
          -- Such an operand is supplied from the beginning.
          rw [Semantics.partialLayer_ready slot]
          refine ih (before ++ [y]) (by rw [split, List.append_cons]) ?_
          exact List.rel_append supplied (.cons (.ready slot) .nil)
      | pending j =>
          obtain rfl : y = .node j := by
            cases y with
            | node k => exact congrArg Operand.node (Slot.pending.inj slot)
            | literal text | block inner | skip inner => cases slot
          have mem : Operand.node j ∈ node.operands := by simp [split]
          exact .inl ⟨j, acyclic i node found j (mem_references_of_mem_operands mem),
            .intro found split supplied⟩

/-- So it may stand on the path to its node, whichever of the two it does. -/
theorem Path.descent_operation (h : Path pool env x below i) (acyclic : pool.Acyclic)
    (found : pool.get? i = some node) (before : List Operand) {after : List Operand}
    {args : List Arg} (split : node.operands = before ++ after)
    (supplied : List.Forall₂ (Supplies env) before args) :
    Descent pool env x (partialLayer env node.signature args after :: below) := by
  rcases awaits_or_complete acyclic found before split supplied with ⟨j, less, waits⟩ | ready
  · exact .awaiting (h.down waits less)
  · exact .complete h ready

/-- The operation of the awaited node comes onto the stack.  None of its operands is supplied by
evaluation yet. -/
theorem Path.descent_start (h : Path pool env x below i) (acyclic : pool.Acyclic)
    (started : Layer.start pool env i = .ok layer) : Descent pool env x (layer :: below) := by
  cases found : pool.get? i with
  | none => simp [Layer.start, found] at started
  | some node =>
      simp only [Layer.start, found, Except.ok.injEq] at started
      obtain rfl := started
      exact h.descent_operation acyclic found [] rfl .nil

/-- The frame in which an operand begins is at a stack of its descent, and of that of any operand
with the same core.  Delays around an operand make no difference to what is evaluated. -/
theorem exists_descent_of_start (acyclic : pool.Acyclic) {y : Operand} (same : x.core = y.core)
    {frame : Frame} (started : Frame.start pool env y = .ok frame) :
    ∃ stack, frame = .operand ⟨env, stack⟩ ∧ Descent pool env x stack := by
  induction y with
  | literal text =>
      cases started
      exact ⟨_, rfl, .literal same⟩
  | node i =>
      rw [Frame.start_node] at started
      cases begun : Layer.start pool env i with
      | error e => simp [begun] at started
      | ok layer =>
          simp only [begun, Except.ok.injEq] at started
          exact ⟨[layer], started.symm, (Path.start same).descent_start acyclic begun⟩
  | block inner => cases started
  | skip inner ih => exact ih same started

/-! ### Steps -/

/-- An error of a start does not show where it happened. -/
theorem snapshot?_of_layer_start {e : EvalError} (h : Layer.start pool env i = .error e) :
    e.snapshot? = none := by
  cases found : pool.get? i with
  | none =>
      simp only [Layer.start, found, Except.error.injEq] at h
      rw [← h]
      rfl
  | some node => simp [Layer.start, found] at h

/-- Nor does that of the start of a frame, so it says nothing of a stack. -/
theorem snapshot?_of_frame_start {e : EvalError} (h : Frame.start pool env x = .error e) :
    e.snapshot? = none := by
  induction x with
  | literal text => cases h
  | node i =>
      rw [Frame.start_node] at h
      cases begun : Layer.start pool env i with
      | error e' =>
          simp only [begun, Except.error.injEq] at h
          exact h ▸ snapshot?_of_layer_start begun
      | ok layer => simp [begun] at h
  | block inner =>
      cases h
      rfl
  | skip inner ih => exact ih h

theorem snapshot?_of_demand_start {demand : Demand} {e : EvalError}
    (h : demand.start context env = .error e) : e.snapshot? = none := by
  cases demand with
  | force suspension => exact snapshot?_of_frame_start h
  | traverse items callee how => cases h
  | keys => cases h

/-- What running an operation can come to: its value, the call of a task for a demand, or an error
that shows the stack below and the operation. -/
theorem run_cases (context : Context) (f : OperandFrame) (signature : Signature)
    (args : List Arg) :
    match f.run context signature args with
    | .proceed next => ∃ v, next = .operand ⟨f.env, .value v :: f.stack⟩
    | .call next callee => next = .operand f ∧ callee.receiver = none ∧
        ∃ demand : Demand, demand.start context f.env = .ok callee.state
    | .done _ => False
    | .fail e => ∀ snapshot, e.snapshot? = some snapshot → snapshot = f.snapshot signature ∧
        (e = .unregistered signature snapshot ∨
          ∃ cause, e = .operator signature.name cause snapshot) := by
  unfold OperandFrame.run
  cases context.registry.find? signature with
  | none =>
      rintro snapshot ⟨⟩
      exact ⟨rfl, .inl rfl⟩
  | some d =>
      dsimp only
      cases context.registry.call (context.registry.scope context.host f.env) d.body args with
      | error cause =>
          rintro snapshot ⟨⟩
          exact ⟨rfl, .inr ⟨cause, rfl⟩⟩
      | ok outcome =>
          cases outcome with
          | value v => exact ⟨v, rfl⟩
          | demand demand =>
              dsimp only
              cases started : demand.start context f.env with
              | error e =>
                  intro snapshot shown
                  rw [snapshot?_of_demand_start started] at shown
                  cases shown
              | ok inner => exact ⟨rfl, rfl, demand, started⟩

/-- What a step through a list can come to.  The frame keeps its callee and its environment in all
cases. -/
theorem traversal_cases (context : Context) (f : TraversalFrame) :
    match Frame.step context (.traversal f) with
    | .proceed next => ∃ f', next = .traversal f'
    | .call next callee => (∃ f', next = .traversal f') ∧
        callee.receiver = some (Frame.collect context.host) ∧
        ∃ demand : Demand, demand.start context f.env = .ok callee.state
    | .done _ => True
    | .fail _ => True := by
  obtain ⟨env, callee, how, items, current, gathered⟩ := f
  cases items with
  | nil => trivial
  | cons item items =>
      simp only [Frame.step_traversal, TraversalFrame.step]
      cases context.registry.apply (context.registry.scope context.host env) callee [item] with
      | error cause => trivial
      | ok outcome =>
          cases outcome with
          | value v =>
              dsimp only
              cases TraversalFrame.absorb context.host
                  ⟨env, callee, how, items, some item, gathered⟩ v with
              | error e => trivial
              | ok next => exact ⟨next, rfl⟩
          | demand demand =>
              dsimp only
              cases started : demand.start context env with
              | error e => trivial
              | ok inner => exact ⟨⟨_, rfl⟩, rfl, demand, started⟩

/-- A task is called to meet a demand, and it begins in the frame of this demand. -/
theorem exists_demand_of_step {frame next : Frame} {callee : Task}
    (h : frame.step context = .call next callee) :
    ∃ (env : Environment) (demand : Demand), demand.start context env = .ok callee.state := by
  cases frame with
  | operand f =>
      obtain ⟨env, stack⟩ := f
      rw [Frame.step_operand] at h
      cases stack with
      | nil => cases h
      | cons layer below =>
          cases layer with
          | value v =>
              -- With a value on top the frame fills an operand, is done or fails.
              rcases below with _ | ⟨_ | _, below⟩
              · cases h
              · simp only [OperandFrame.step] at h
                split at h <;> cases h
              · cases h
          | operation signature slots =>
              rw [OperandFrame.step_operation] at h
              cases arguments : Slot.arguments slots with
              | ok args =>
                  have applied := run_cases context ⟨env, below⟩ signature args
                  simp only [arguments] at h
                  rw [h] at applied
                  exact ⟨_, applied.2.2⟩
              | error index =>
                  simp only [arguments] at h
                  split at h <;> cases h
  | traversal f =>
      have stepped := traversal_cases context f
      rw [h] at stepped
      exact ⟨_, stepped.2.2⟩
  | keys keys listed => cases keys <;> cases h

/-- An error with a snapshot is the one of the operation on top.  All its operands are
supplied, and it shows the path below and the operation's name and arity. -/
def Located (pool : Pool) (env : Environment) (x : Operand) (stack : List Layer)
    (e : EvalError) : Prop :=
  ∀ snapshot, e.snapshot? = some snapshot → ∃ i node layer below,
    stack = layer :: below ∧ Path pool env x below i ∧ pool.get? i = some node ∧
      layer.Complete pool env i ∧
      snapshot = ⟨below.reverse.map Layer.render ++ [node.signature.render], env⟩ ∧
      (e = .unregistered node.signature snapshot ∨
        ∃ cause, e = .operator node.name cause snapshot)

/-- **A step keeps to the descent**, or it fails at the operation on top.  A value goes to the
operation that was waiting for it, a pending node comes onto the stack, and an operation with all
its arguments makes way for its value. -/
theorem Descent.onward (h : Descent context.pool env x stack) (acyclic : context.pool.Acyclic) :
    match Frame.step context (.operand ⟨env, stack⟩) with
    | .proceed next => ∃ stack', next = .operand ⟨env, stack'⟩ ∧ Descent context.pool env x stack'
    | .call next callee => callee.receiver = none ∧
        ∃ stack' i, next = .operand ⟨env, stack'⟩ ∧ Path context.pool env x stack' i
    | .done _ => True
    | .fail e => Located context.pool env x stack e := by
  cases h with
  | literal _ => trivial
  -- The next operand is started on top of the layer that waits for it.
  | @awaiting below layer j path =>
      cases path with
      | @down _ _ i _ path waits less =>
          cases waits with
          | @intro node before after args found split supplied =>
          cases started : Layer.start context.pool env j with
          | error e =>
              rw [Semantics.step_push_fails node.signature args after below started]
              intro snapshot shown
              rw [snapshot?_of_layer_start started] at shown
              cases shown
          | ok layer =>
              rw [Semantics.step_push node.signature args after below started]
              have path' := path.down (.intro found split supplied) less
              exact ⟨_, rfl, path'.descent_start acyclic started⟩
  -- All operands are there, so the operation runs and its layer is taken off.
  | @complete below layer i path ready =>
      cases ready with
      | @intro node args found supplied =>
      have applied := run_cases context ⟨env, below⟩ node.signature args
      rw [Semantics.step_apply]
      cases result : OperandFrame.run context ⟨env, below⟩ node.signature args with
      | proceed next =>
          rw [result] at applied
          obtain ⟨v, rfl⟩ := applied
          exact ⟨_, rfl, .value v path⟩
      | call next callee =>
          rw [result] at applied
          obtain ⟨rfl, common, -⟩ := applied
          exact ⟨common, below, i, rfl, path⟩
      | done v => trivial
      | fail e =>
          rw [result] at applied
          intro snapshot shown
          obtain ⟨rfl, why⟩ := applied snapshot shown
          refine ⟨i, node, _, below, rfl, path, found, .intro found supplied, ?_, why⟩
          simp [OperandFrame.snapshot]
  -- A value on top goes into the layer below, if there is one.
  | @value below i v path =>
      cases path with
      | start _ => trivial
      | @down below layer k _ path waits less =>
          cases waits with
          | @intro node before after args found split supplied =>
          rw [Semantics.step_fill]
          refine ⟨_, rfl, path.descent_operation acyclic found (before ++ [.node i]) ?_ ?_⟩
          · rw [split, List.append_cons]
          · exact List.rel_append supplied (.cons (.value i v) .nil)

/-! ### Runs -/

/-- A frame in which a task that began in `first` may work. -/
def Working (context : Context) (first : Frame) : Frame → Prop
  | .operand f => ∃ x, Frame.start context.pool f.env x = .ok first ∧
      Descent context.pool f.env x f.stack
  | .traversal _ => True
  | .keys _ _ => True

/-- A frame in which it may wait for a called task with some receiver. -/
def Waiting (context : Context) (first : Frame)
    (receiver : Option (Frame → Value → Except EvalError Frame)) : Frame → Prop
  | .operand f => receiver = none ∧ ∃ x i, Frame.start context.pool f.env x = .ok first ∧
      Path context.pool f.env x f.stack i
  | .traversal _ => receiver = some (Frame.collect context.host)
  | .keys _ _ => False

/-- **A task stays in these frames**, whatever the tasks that it calls come to.  They deliver
values, and of a value the descent asks nothing but its place. -/
theorem steady_working (acyclic : context.pool.Acyclic) (first : Frame) :
    Steady (program context) Frame.receive (Working context first) (Waiting context first) where
  proceed := by
    intro routine frame next working stepped
    replace stepped := step_of_program stepped nofun
    cases frame with
    | operand f =>
        obtain ⟨x, begun, descent⟩ := working
        have onward := descent.onward acyclic
        rw [stepped] at onward
        obtain ⟨stack, rfl, descent'⟩ := onward
        exact ⟨x, begun, descent'⟩
    | traversal f =>
        have possible := traversal_cases context f
        rw [stepped] at possible
        obtain ⟨f', rfl⟩ := possible
        trivial
    | keys keys listed =>
        cases keys with
        | nil => cases stepped
        | cons key rest =>
            cases stepped
            trivial
  call := by
    intro routine frame next callee working stepped
    replace stepped := step_of_program stepped nofun
    cases frame with
    | operand f =>
        obtain ⟨x, begun, descent⟩ := working
        have onward := descent.onward acyclic
        rw [stepped] at onward
        obtain ⟨common, stack, i, rfl, path⟩ := onward
        exact ⟨common, x, i, begun, path⟩
    | traversal f =>
        have possible := traversal_cases context f
        rw [stepped] at possible
        obtain ⟨⟨f', rfl⟩, element, -⟩ := possible
        exact element
    | keys keys listed => cases keys <;> cases stepped
  taken := by
    intro receiver frame v next waiting taken
    cases frame with
    | operand f =>
        -- A frame of operands waits without a receiver of its own: the value is pushed.
        obtain ⟨rfl, x, i, begun, path⟩ := waiting
        cases taken
        exact ⟨x, begun, .value v path⟩
    | traversal f =>
        obtain rfl := waiting
        simp only [Option.getD_some, Frame.collect] at taken
        cases absorbed : f.absorb context.host v with
        | error e => simp [absorbed, Except.map] at taken
        | ok f' =>
            simp only [absorbed, Except.map, Except.ok.injEq] at taken
            exact taken ▸ trivial
    | keys keys listed => exact waiting.elim

/-- A task begins in a frame that it may work in. -/
theorem working_of_demand_start (acyclic : context.pool.Acyclic) {demand : Demand}
    {first : Frame} (started : demand.start context env = .ok first) :
    Working context first first := by
  cases demand with
  | force suspension =>
      obtain ⟨stack, rfl, descent⟩ := exists_descent_of_start acyclic rfl started
      exact ⟨suspension.operand, started, descent⟩
  | traverse items callee how =>
      cases started
      trivial
  | keys =>
      cases started
      trivial

/-- An evaluation of `x` at `f`, the frame of a task between the tasks `inner` and
`outer` in a run from `run`. -/
structure Traced (context : Context) (run : Task) (inner : List Task) (t : Task)
    (outer : List Task) (f : OperandFrame) (x : Operand) : Prop where
  /-- The task began with `x` when the same tasks were outside, and it went on alone. -/
  began : ∃ first, Frame.start context.pool f.env x = .ok first ∧
    Origin (program context) Frame.receive run { t with state := first } inner t outer
  /-- At work, its stack is one of the descent from `x`. -/
  descent : inner = [] → Descent context.pool f.env x f.stack
  /-- While it waits for the tasks inside, there is the path to an awaited node only. -/
  path : inner ≠ [] → ∃ i, Path context.pool f.env x f.stack i
  /-- So the stack has at most one entry more than the pool has nodes. -/
  length_le : f.stack.length ≤ context.pool.size + 1
  /-- And what an operation on it fails with shows the path. -/
  located : inner = [] → ∀ e, Frame.step context (.operand f) = .fail e →
    Located context.pool f.env x f.stack e

/-- **All evaluations descend.**  In a pool without cycles, take any state that a run
reaches, and any task in it that evaluates an operand.  Since it began with this operand,
the task has kept to the descent from it. -/
theorem exists_traced_of_reaches (acyclic : context.pool.Acyclic) {root : Operand}
    {frame : Frame} (started : Frame.start context.pool env root = .ok frame) {budget : Nat}
    {state : Schedule.State Routine Frame Value EvalError}
    (reaches : Schedule.Reaches ⟨program context, budget, some Frame.receive⟩
      (.start [.new .operand frame]) state)
    {inner outer : List Task} {t : Task} (split : state.tasks = inner ++ t :: outer)
    {f : OperandFrame} (operand : t.state = .operand f) :
    ∃ x, Traced context (.new .operand frame) inner t outer f x := by
  obtain ⟨n, leads⟩ := reaches.leads
  rw [split] at leads
  obtain ⟨first, origin⟩ := leads.exists_origin
  -- A task begins where an operand is started, whether it is the first one or was called.
  have begun : Working context first.state first.state := by
    have entered := origin.enters
    cases outer with
    | nil =>
        rw [show first = .new .operand frame from entered]
        have forced : Demand.start context env (.force ⟨root, env⟩) = .ok frame := started
        exact working_of_demand_start acyclic forced
    | cons caller rest =>
        obtain ⟨before, called⟩ := entered
        obtain ⟨env', demand, started'⟩ := exists_demand_of_step (step_of_program called nofun)
        exact working_of_demand_start acyclic started'
  have origin' : Origin (program context) Frame.receive (.new .operand frame)
      { t with state := first.state } inner t outer := origin.eq_withState ▸ origin
  obtain ⟨m, since⟩ := origin.since
  have kept := (steady_working acyclic first.state).keeps begun since
  -- Innermost tasks are at work, and all others wait for the one inside.
  rcases kept.work_or_wait with ⟨innermost, working⟩ | ⟨inside, receiver, waiting⟩
  · rw [operand] at working
    obtain ⟨x, start, descent⟩ := working
    refine ⟨x, ⟨first.state, start, origin'⟩, fun _ => descent, absurd innermost,
      descent.length_le, fun _ e failed => ?_⟩
    have onward := descent.onward acyclic
    rw [failed] at onward
    exact onward
  · rw [operand] at waiting
    obtain ⟨-, x, i, start, path⟩ := waiting
    have bound := path.length_le
    exact ⟨x, ⟨first.state, start, origin'⟩, fun none => absurd none inside, fun _ => ⟨i, path⟩,
      by omega, fun none => absurd none inside⟩

/-- The nodes of `! (if 'true' then *'k' else 'a')`, for a host without any data. -/
abbrev branchContext : Context :=
  ⟨Record.toHost .empty, .standard, ⟨#[⟨"*", [.literal "k"]⟩,
    ⟨"if", [.literal "true", .skip (.node 0), .skip (.literal "a")]⟩, ⟨"!", [.node 1]⟩]⟩⟩

/-- What the conditional is given. -/
abbrev branchArgs : List Arg :=
  [.value (.str "true"), .deferred ⟨.node 0, .empty⟩, .deferred ⟨.literal "a", .empty⟩]

/-- The evaluation that begins with the last node. -/
abbrev negating : OperandFrame := ⟨.empty, [.operation ⟨"!", 1⟩ [.pending 1]]⟩

/-- The same when the conditional is ready to be run. -/
abbrev branching : OperandFrame :=
  ⟨.empty, [.operation ⟨"if", 3⟩ (branchArgs.map .ready), .operation ⟨"!", 1⟩ [.pending 1]]⟩

/-- The one that the conditional calls for its first branch. -/
abbrev lookingUp : OperandFrame := ⟨.empty, [.operation ⟨"*", 1⟩ [.ready (.value (.str "k"))]]⟩

theorem step_branching : Frame.step branchContext (.operand branching) =
    .call (.operand negating) (.new .operand (.operand lookingUp)) := by
  obtain ⟨d, found, body⟩ : ∃ d, Registry.standard.find? ⟨"if", 3⟩ = some d ∧
      d.body = Standard.branch := ⟨_, rfl, rfl⟩
  have called : branchContext.registry.call (scopeIn branchContext .empty) d.body branchArgs =
      .ok (.demand (.force ⟨.node 0, .empty⟩)) := by
    rw [body, Registry.call_eq]
    rfl
  show OperandFrame.run branchContext negating ⟨"if", 3⟩ branchArgs = _
  simp only [OperandFrame.run, found, called]
  rfl

/-- After two steps both evaluations are under way, one of them waiting for the other. -/
theorem exists_traced_of_branch :
    branchContext.pool.Acyclic ∧
      Frame.start branchContext.pool .empty (.node 2) = .ok (.operand negating) ∧
      (∃ x, Traced branchContext (task (.operand negating) none) []
        (task (.operand lookingUp) none) [task (.operand negating) none] lookingUp x) ∧
      ∃ x, Traced branchContext (task (.operand negating) none)
        [task (.operand lookingUp) none] (task (.operand negating) none) [] negating x := by
  have acyclic : branchContext.pool.Acyclic :=
    ((Pool.acyclic_empty.push (by decide)).push (by decide)).push (by decide)
  have started : Frame.start branchContext.pool .empty (.node 2) = .ok (.operand negating) := rfl
  let caller : Task := task (.operand negating) none
  let called : Task := task (.operand lookingUp) none
  let rules : Schedule.Rules Routine Frame Value EvalError :=
    ⟨program branchContext, 2, some Frame.receive⟩
  have descends : Schedule.advance rules (.start [caller]) =
    .running ⟨[task (.operand branching) none], 1, 0⟩ := rfl
  have calls : Schedule.advance rules ⟨[task (.operand branching) none], 1, 0⟩ =
      .running ⟨[called, caller], 2, 0⟩ := by
    have going : Schedule.turn rules.program rules.receive? [task (.operand branching) none] =
        .going [called, caller] := by
      have stepped : program branchContext .operand (.operand branching) = _ := step_branching
      simp only [Schedule.turn, rules, Frame.routine, stepped]
      rfl
    exact Schedule.advance_eq_running_iff.mpr ⟨by decide, going, rfl, rfl⟩
  have reaches : Schedule.Reaches rules (.start [caller]) ⟨[called, caller], 2, 0⟩ :=
    .advance descends (.advance calls (.refl _))
  exact ⟨acyclic, started,
    exists_traced_of_reaches acyclic started reaches
      (show [called, caller] = [] ++ called :: [caller] from rfl) rfl,
    exists_traced_of_reaches acyclic started reaches
      (show [called, caller] = [called] ++ caller :: [] from rfl) rfl⟩

end Evaluate

end RuleEngine
