import RuleEngine.Proofs.Evaluate.Routine
import RuleEngine.Proofs.Evaluate.Semantics
import RuleEngine.Proofs.Schedule.Turns

/-!
# The machine follows the semantics

Every derivation of `Semantics` is a stretch of turns of the machine, as long as
the derivation counts.  A derivation for a node among operands takes its layer
away from the top of the stack and leaves the value there; one for an operand on
its own, or for a demand, is the life of a task.

## Main definitions

* `Delivers` - so many turns lead from some tasks to the ones for a result, or
  raise an error with the cause that the result is.
* `Resolves` - the task of a frame comes to a result.

## Main statements

* `turn_proceed`, `turn_call`, `turn_done`, `turn_fail` - what a step of a frame is to a
  stack of tasks.
* `Resolves.handBack` - a called task hands its result back to its caller.
* `absorb_eq` - a frame combines a result with the element that it holds.
* `resolves_start` - the frame in which an operand starts comes to what the
  operand evaluates to.
* `resolves_demand`, `resolves_traversal` - so it is for what bodies demand.

## Design notes

**Everything is stated in context.**  Below and around the part of the stacks that a
derivation is about there may be anything: all statements hold for arbitrary layers below
and tasks outside.  Without this the induction would not go through, since the machine
evaluates an operand on top of the operation that waits for it, and a demand in a task
above the one that made it.

**Where elements are.**  In the semantics an element is at hand when its result is
combined.  In the machine it waits in the frame of its traversal while its result is
computed, and the receiver through which the result comes in is the same for all elements.
`absorb_eq` and `step_element_call` are where the two meet; everything else about
traversals is said of contributions alone.
-/

namespace RuleEngine.Semantics

open Evaluate Schedule

/-- The tasks of an evaluation. -/
abbrev Task := Schedule.Task Routine Frame Value EvalError

/-- So many turns of the evaluation lead from some tasks to others. -/
abbrev Leads (context : Context) : Nat → List Task → List Task → Prop :=
  Schedule.Leads (program context) (some Frame.receive)

/-- After so many turns the evaluation is over. -/
abbrev Ends (context : Context) :
    Nat → List Task → Except (Stop EvalError) Value → Prop :=
  Schedule.Ends (program context) (some Frame.receive)

/-- The task in a frame, with the routine of the frame. -/
abbrev task (frame : Frame) (receiver : Option (Frame → Value → Except EvalError Frame)) :
    Task :=
  ⟨frame.routine, frame, receiver⟩

variable {context : Context} {env : Environment} {frame next caller : Frame}
variable {receiver : Option (Frame → Value → Except EvalError Frame)} {outer : List Task}
variable {m n : Nat} {v : Value} {e : EvalError}

/-! ### Single turns -/

/-- A task whose routine has stayed that of its frame is the task in that frame.  The routine of a
task never changes, while its frame does with every step; steps keep the two together, and this is
how a task that a turn leaves behind is recognized as one. -/
theorem eq_task {routine : Routine} (same : next.routine = routine) :
    (⟨routine, next, receiver⟩ : Task) = task next receiver := by
  rw [task, same]

/-- A task made for a demand has the routine that fits the frame in which it begins, so it is the
task in that frame, with no receiver of its own yet. -/
theorem new_eq_task {demand : Demand} (hs : demand.start context env = .ok frame) :
    (.new demand.routine frame : Task) = task frame none :=
  eq_task (routine_of_demand_start hs)

/-- The same for the task with which an evaluation begins, whose routine is that of operands. -/
theorem new_operand_eq_task {pool : Pool} {x : Operand}
    (hs : Frame.start pool env x = .ok frame) :
    (.new .operand frame : Task) = task frame none :=
  eq_task (Frame.routine_of_start hs)

/-- A step to another frame is one turn of the task on top.  The tasks outside of it and its
receiver are not touched. -/
theorem turn_proceed (h : frame.step context = .proceed next) :
    Leads context 1 (task frame receiver :: outer) (task next receiver :: outer) := by
  have same := matched_step context frame
  rw [h] at same
  rw [Frame.step] at h
  refine .one ?_
  simp only [turn, h, eq_task same]

/-- A step that calls is one turn as well: the called task is put on top, and the caller stays
below it in the frame that it goes on from. -/
theorem turn_call {inner : Task} (h : frame.step context = .call next inner) :
    Leads context 1 (task frame receiver :: outer) (inner :: task next receiver :: outer) := by
  have matched := matched_step context frame
  rw [h] at matched
  rw [Frame.step] at h
  refine .one ?_
  simp only [turn, h, eq_task matched.1]

/-- When a task is done, its value goes to the caller through the receiver of the task, or in the
common way if it has none of its own. -/
theorem turn_done (h : frame.step context = .done v) :
    turn (program context) (some Frame.receive) (task frame receiver :: outer) =
      handBack (receiver.or (some Frame.receive)) outer v := by
  rw [Frame.step] at h
  simp only [turn, h]

/-- A step that fails is the last turn, whatever the tasks outside are waiting for. -/
theorem turn_fail (h : frame.step context = .fail e) :
    Ends context 1 (task frame receiver :: outer) (.error (.raised e)) := by
  rw [Frame.step] at h
  refine .last ?_
  simp only [turn, h]

/-! ### Results -/

/-- So many turns lead to the tasks for the result, or raise its cause. -/
def Delivers {α : Type} (context : Context) (n : Nat) (tasks : List Task)
    (r : Except EvalCause α) (target : α → List Task) : Prop :=
  match r with
  | .ok a => Leads context n tasks (target a)
  | .error cause => ∃ e, e.cause? = some cause ∧ Ends context n tasks (.error (.raised e))

section Results

variable {α β : Type} {cause : EvalCause}

/-- Turns before a delivery count towards it.  This is how the derivations for the parts of a node
are put together, in the order in which the machine goes through them. -/
theorem Delivers.after {tasks middle : List Task} {r : Except EvalCause α}
    {target : α → List Task} (h : Leads context m tasks middle)
    (h' : Delivers context n middle r target) :
    Delivers context (m + n) tasks r target := by
  cases r with
  | ok a => exact h.trans h'
  | error cause =>
      obtain ⟨e, he, ends⟩ := h'
      exact ⟨e, he, h.ends ends⟩

/-- To deliver an image of a result is to deliver the result to the tasks for its image, so what
is made of a value can be said on either side. -/
theorem delivers_map {tasks : List Task} {r : Except EvalCause α} {f : α → β}
    {target : β → List Task} :
    Delivers context n tasks (r.map f) target ↔
      Delivers context n tasks r fun a => target (f a) := by
  cases r <;> rfl

/-- A step that fails delivers the cause of its error, and nothing of the tasks outside is left. -/
theorem delivers_fail {target : α → List Task} (h : frame.step context = .fail e)
    (he : e.cause? = some cause) :
    Delivers context 1 (task frame receiver :: outer) (.error cause) target :=
  ⟨e, he, turn_fail h⟩

/-- The task of a frame comes to a result: its last turn is done with the value,
or the cause is raised. -/
def Resolves (context : Context) (frame : Frame) (n : Nat) (r : Except EvalCause Value) :
    Prop :=
  ∀ receiver outer,
    match r with
    | .ok v => ∃ k last, n = k + 1 ∧ last.step context = .done v ∧
        Leads context k (task frame receiver :: outer) (task last receiver :: outer)
    | .error cause => ∃ e, e.cause? = some cause ∧
        Ends context n (task frame receiver :: outer) (.error (.raised e))

/-- A start comes to a result: it fails at once, or its frame comes to it. -/
def StartResolves (context : Context) (start : Except EvalError Frame) (n : Nat)
    (r : Except EvalCause Value) : Prop :=
  match start with
  | .error e => n = 0 ∧ ∃ cause, e.cause? = some cause ∧ r = .error cause
  | .ok frame => Resolves context frame n r

/-- Turns of a task before it resolves count towards that, if they are turns of this task with any
receiver and any tasks outside. -/
theorem Resolves.after {r : Except EvalCause Value}
    (h : ∀ receiver outer,
      Leads context m (task frame receiver :: outer) (task next receiver :: outer))
    (h' : Resolves context next n r) : Resolves context frame (m + n) r := by
  intro receiver outer
  have later := h' receiver outer
  cases r with
  | ok v =>
      obtain ⟨k, last, rfl, done, leads⟩ := later
      exact ⟨m + k, last, by omega, done, (h receiver outer).trans leads⟩
  | error cause =>
      obtain ⟨e, he, ends⟩ := later
      exact ⟨e, he, (h receiver outer).ends ends⟩

/-- A frame that is done resolves in its next turn, to the value that it is done with. -/
theorem resolves_of_done (h : frame.step context = .done v) :
    Resolves context frame 1 (.ok v) :=
  fun _ _ => ⟨0, frame, rfl, h, .refl _⟩

/-- A called task that comes to a result hands it back: the caller makes of it
what `receive` says, and goes on in a frame of the same routine. -/
theorem Resolves.handBack {r : Except EvalCause Value} {r' : Except EvalCause α}
    {receive : Frame → Value → Except EvalError Frame}
    {called : Option (Frame → Value → Except EvalError Frame)}
    (h : Resolves context frame n r) (target : α → Frame)
    (same : ∀ a, (target a).routine = caller.routine)
    (hr : called.or (some Frame.receive) = some receive)
    (failure : ∀ cause, r = .error cause → r' = .error cause)
    (success : ∀ v, r = .ok v →
      match receive caller v with
      | .ok state => ∃ a, r' = .ok a ∧ state = target a
      | .error e => ∃ cause, e.cause? = some cause ∧ r' = .error cause) :
    Delivers context n (task frame called :: task caller receiver :: outer) r'
      fun a => task (target a) receiver :: outer := by
  have life := h called (task caller receiver :: outer)
  cases r with
  | error cause => rw [failure cause rfl]; exact life
  | ok v =>
      obtain ⟨k, last, rfl, done, leads⟩ := life
      have back := success v rfl
      cases hv : receive caller v with
      | ok state =>
          rw [hv] at back
          obtain ⟨a, rfl, rfl⟩ := back
          refine leads.trans (.one ?_)
          simp only [turn_done done, hr, Schedule.handBack, hv, eq_task (same a)]
      | error e =>
          rw [hv] at back
          obtain ⟨cause, he, rfl⟩ := back
          refine ⟨e, he, leads.ends (.last ?_)⟩
          simp only [turn_done done, hr, Schedule.handBack, hv]

end Results

/-! ### Layers -/

/-- An operation of which the first arguments are there. -/
abbrev partialLayer (env : Environment) (signature : Signature) (args : List Arg)
    (operands : List Operand) : Layer :=
  .operation signature (args.map .ready ++ operands.map (Slot.ofOperand env))

/-- The arguments of an operation of which no slot is pending are those in its slots, in their
order. -/
theorem arguments_ready (args : List Arg) : Slot.arguments (args.map .ready) = .ok args := by
  induction args with
  | nil => rfl
  | cons arg rest ih => simp [Slot.arguments, ih, Except.map]

/-- What stands behind the first pending slot does not matter yet: the operation waits for the
node of this slot, however many others are pending. -/
theorem arguments_pending (args : List Arg) (i : Nat) (slots : List Slot) :
    Slot.arguments (args.map .ready ++ .pending i :: slots) = .error i := by
  induction args with
  | nil => rfl
  | cons arg rest ih => simp [Slot.arguments, ih, Except.map]

/-- A value is put into the first pending slot, which is the one that its evaluation was begun
for.  All slots before are ready, those behind stay as they are. -/
theorem fill?_pending (args : List Arg) (i : Nat) (v : Value) (slots : List Slot) :
    Slot.fill? v (args.map .ready ++ .pending i :: slots) =
      some ((args ++ [Arg.value v]).map .ready ++ slots) := by
  induction args with
  | nil => rfl
  | cons arg rest ih => simp [Slot.fill?, ih]

/-- An operand that needs no evaluation is ready from the start, so the layer is also the one in
which it has been evaluated already.  Literals, braced bodies and deferred operands take no turns
for that reason. -/
theorem partialLayer_ready {x : Operand} {arg : Arg} (h : Slot.ofOperand env x = .ready arg)
    (signature : Signature) (args : List Arg) (operands : List Operand) :
    partialLayer env signature args (x :: operands) =
      partialLayer env signature (args ++ [arg]) operands := by
  simp [h]

/-- The layer of a node begins with all of its operands still to come. -/
theorem start_eq_ok {i : Nat} {node : Node} (h : context.pool.get? i = some node) :
    Layer.start context.pool env i = .ok (partialLayer env node.signature [] node.operands) := by
  simp [Layer.start, h, Layer.ofNode]

/-- An index without a node cannot be begun, which is an internal fault and not an error of the
expression. -/
theorem start_eq_error {i : Nat} (h : context.pool.get? i = none) :
    Layer.start context.pool env i = .error (.internal .danglingNode) := by
  simp [Layer.start, h]

section Layers

variable (signature : Signature) (args : List Arg) (operands : List Operand)
variable (below : List Layer) {i : Nat} {layer : Layer}

/-- A pending operand is begun on top of its operation.  The layer below keeps the slot pending,
so that the value finds its place when it comes. -/
theorem step_push (h : Layer.start context.pool env i = .ok layer) :
    Frame.step context (.operand ⟨env,
        partialLayer env signature args (.node i :: operands) :: below⟩) =
      .proceed (.operand ⟨env,
        layer :: partialLayer env signature args (.node i :: operands) :: below⟩) := by
  simp [OperandFrame.step_operation, Slot.ofOperand, arguments_pending, h]

/-- A pending operand that points at nothing cannot be begun, and the evaluation fails there. -/
theorem step_push_fails (h : Layer.start context.pool env i = .error e) :
    Frame.step context (.operand ⟨env,
        partialLayer env signature args (.node i :: operands) :: below⟩) = .fail e := by
  simp [OperandFrame.step_operation, Slot.ofOperand, arguments_pending, h]

/-- A value on top of an operation is its next argument: it goes into the slot for which it was
evaluated, and the operands behind are next. -/
theorem step_fill (context : Context) (env : Environment) (i : Nat) (v : Value) :
    Frame.step context (.operand ⟨env,
        .value v :: partialLayer env signature args (.node i :: operands) :: below⟩) =
      .proceed (.operand ⟨env,
        partialLayer env signature (args ++ [.value v]) operands :: below⟩) := by
  simp only [Frame.step_operand, OperandFrame.step, List.map_cons, Slot.ofOperand, fill?_pending]

/-- An operation whose arguments are all there is taken off the stack and run, with the layers
below it left as they are. -/
theorem step_apply (context : Context) (env : Environment) :
    Frame.step context (.operand ⟨env, partialLayer env signature args [] :: below⟩) =
      OperandFrame.run context ⟨env, below⟩ signature args := by
  simp [OperandFrame.step_operation, arguments_ready]

end Layers

/-! ### Elements -/

/-- The combined contribution of an element, or why there is none. -/
def contribution (context : Context) (how : Traversal) (item : Value)
    (r : Except EvalCause Value) : Except EvalCause (List Value) :=
  match r with
  | .error cause => .error cause
  | .ok v => (how.combine context.host item v).mapError (.operator how.render)

/-- The frame of a traversal absorbs what the semantics combines for the element that it holds.
The semantics is given the element and the result at the same time; the frame has the element from
the step before, possibly many turns ago. -/
theorem absorb_eq (host : Host) (f : TraversalFrame) {item : Value}
    (held : f.current = some item) (v : Value) :
    f.absorb host v =
      match f.traversal.combine host item v with
      | .ok vs =>
        .ok { f with current := f.traversal.park item, gathered := vs.reverse ++ f.gathered }
      | .error cause => .error (.operator f.traversal.render cause f.snapshot) := by
  obtain ⟨env, callee, how, items, current, gathered⟩ := f
  cases held
  cases how with
  | map => rfl
  | filter =>
      simp only [TraversalFrame.absorb, Traversal.combine]
      split <;> rfl
  | flatMap =>
      cases v <;> simp [TraversalFrame.absorb, Traversal.combine, Traversal.park,
        List.reverseAux_eq]

/-- What is left behind when a result is absorbed is the contribution of the element: the results
so far with those of the element added, or the cause of the failure. -/
theorem absorb_contribution (f : TraversalFrame) {item : Value} (held : f.current = some item)
    (v : Value) :
    match (f.absorb context.host v).map Frame.traversal with
    | .ok state => ∃ vs, contribution context f.traversal item (.ok v) = .ok vs ∧
        state = .traversal
          { f with current := f.traversal.park item, gathered := vs.reverse ++ f.gathered }
    | .error e => ∃ cause, e.cause? = some cause ∧
        contribution context f.traversal item (.ok v) = .error cause := by
  rw [absorb_eq context.host f held]
  simp only [contribution]
  cases f.traversal.combine context.host item v with
  | ok vs => exact ⟨vs, rfl, rfl⟩
  | error cause => exact ⟨_, rfl, rfl⟩

section Elements

variable {callee : Callee} {item : Value} (how : Traversal) (items : List Value)
variable (current : Option Value) (gathered : List Value)

/-- An application that fails is the failure of the traversal, with the element still among those
to come. -/
theorem step_element_fails {cause : OperationError}
    (h : context.registry.apply (scopeIn context env) callee [item] = .error cause) :
    Frame.step context (.traversal ⟨env, callee, how, item :: items, current, gathered⟩) =
      .fail (.operator how.render cause
        (TraversalFrame.snapshot ⟨env, callee, how, item :: items, current, gathered⟩)) := by
  simp only [Frame.step_traversal, TraversalFrame.step, h]

/-- An application that has a value at once is one turn, in which the element is held and its
result absorbed. -/
theorem step_element
    (h : context.registry.apply (scopeIn context env) callee [item] = .ok (.value v)) :
    Frame.step context (.traversal ⟨env, callee, how, item :: items, current, gathered⟩) =
      match TraversalFrame.absorb context.host
          ⟨env, callee, how, items, some item, gathered⟩ v with
      | .error e => .fail e
      | .ok next => .proceed (.traversal next) := by
  cases absorbed : TraversalFrame.absorb context.host
      ⟨env, callee, how, items, some item, gathered⟩ v <;>
    simp only [Frame.step_traversal, TraversalFrame.step, h, absorbed]

/-- An application that makes a demand calls the task that meets it.  Meanwhile the
frame holds the element, and the receiver is the same for all elements. -/
theorem step_element_call {demand : Demand} {inner : Frame}
    (h : context.registry.apply (scopeIn context env) callee [item] = .ok (.demand demand))
    (hs : demand.start context env = .ok inner) :
    Frame.step context (.traversal ⟨env, callee, how, item :: items, current, gathered⟩) =
      .call (.traversal ⟨env, callee, how, items, some item, gathered⟩)
        (task inner (some (Frame.collect context.host))) := by
  simp only [Frame.step_traversal, TraversalFrame.step, h, hs, task, routine_of_demand_start hs]
  rfl

end Elements

/-! ### Keys -/

/-- Keys are listed one in each turn, and one more turn ends the list.  Nothing in it can fail. -/
theorem resolves_keys (context : Context) (keys : List String) (listed : List Value) :
    Resolves context (.keys keys listed) (keys.length + 1)
      (.ok (.list (listed.reverse ++ keys.map .str))) := by
  induction keys generalizing listed with
  | nil =>
      have done : Frame.step context (.keys [] listed) = .done (.list listed.reverse) := rfl
      simpa using resolves_of_done done
  | cons key rest ih =>
      have later := ih (.str key :: listed)
      have first : ∀ receiver outer, Leads context 1
          (task (.keys (key :: rest) listed) receiver :: outer)
          (task (.keys rest (.str key :: listed)) receiver :: outer) :=
        fun _ _ => turn_proceed rfl
      have all := later.after first
      rw [show 1 + (rest.length + 1) = (key :: rest).length + 1 by
        rw [List.length_cons]; omega] at all
      simpa using all

/-! ### Derivations -/

/-- What a derivation for a node says of the machine: the node's layer on top of
the stack gives way to the value. -/
def LayerDelivers (context : Context) (env : Environment) (n : Nat)
    (r : Except EvalCause Value) (layer : Layer) : Prop :=
  ∀ below receiver outer,
    Delivers context n (task (.operand ⟨env, layer :: below⟩) receiver :: outer) r
      fun v => task (.operand ⟨env, .value v :: below⟩) receiver :: outer

/-- What a derivation for operands says of the machine: behind the arguments
that an operation has already, those of the operands are filled in. -/
def OperandsDeliver (context : Context) (env : Environment) (operands : List Operand)
    (n : Nat) (r : Except EvalCause (List Arg)) : Prop :=
  ∀ signature args below receiver outer,
    Delivers context n
      (task (.operand ⟨env, partialLayer env signature args operands :: below⟩) receiver ::
        outer) r
      fun more => task (.operand
        ⟨env, partialLayer env signature (args ++ more) [] :: below⟩) receiver :: outer

/-- What a derivation for an element says of the machine: its contribution is
gathered, whichever element the frame has been holding before. -/
def ElementDelivers (context : Context) (env : Environment) (callee : Callee)
    (how : Traversal) (item : Value) (n : Nat) (r : Except EvalCause Value) : Prop :=
  ∀ items current gathered receiver outer,
    Delivers context n
      (task (.traversal ⟨env, callee, how, item :: items, current, gathered⟩) receiver :: outer)
      (contribution context how item r)
      fun vs => task (.traversal
        ⟨env, callee, how, items, how.park item, vs.reverse ++ gathered⟩) receiver :: outer

/-- An operand that is ready takes no turns of its own, and its argument stands in front of those
of the operands behind it. -/
theorem OperandsDeliver.ready {x : Operand} {arg : Arg} {rest : List Operand}
    {r : Except EvalCause (List Arg)} (h : OperandsDeliver context env rest n r)
    (hx : Slot.ofOperand env x = .ready arg) :
    OperandsDeliver context env (x :: rest) n (r.map (arg :: ·)) := by
  intro signature args below receiver outer
  rw [delivers_map, partialLayer_ready hx]
  have later := h signature (args ++ [arg]) below receiver outer
  simpa only [List.append_assoc, List.singleton_append] using later

/-- An operation is run when its arguments have come to be there; the turns of the operands and
those of the operation add up. -/
theorem OperandsDeliver.apply {node : Node} {args : List Arg} {r : Except EvalCause Value}
    (h : OperandsDeliver context env node.operands n (.ok args))
    (applied : LayerDelivers context env m r (partialLayer env node.signature args [])) :
    LayerDelivers context env (n + m) r (partialLayer env node.signature [] node.operands) :=
  fun below receiver outer =>
    Delivers.after (h node.signature [] below receiver outer) (applied below receiver outer)

/-- A demand that comes to a result is the result of the operation whose body has made it.  One
turn makes the call, and the last turn of the called task hands the value back onto the stack. -/
theorem layerDelivers_of_demand {signature : Signature} {args : List Arg} {d : Definition}
    {demand : Demand} {r : Except EvalCause Value}
    (hd : context.registry.find? signature = some d)
    (hcall : context.registry.call (scopeIn context env) d.body args = .ok (.demand demand))
    (h : StartResolves context (demand.start context env) n r) :
    LayerDelivers context env (1 + n) r (partialLayer env signature args []) := by
  intro below receiver outer
  have step := step_apply signature args below context env
  cases hs : demand.start context env with
  | error e =>
      rw [hs] at h
      obtain ⟨rfl, cause, he, rfl⟩ := h
      simp only [OperandFrame.run, hd, hcall, hs] at step
      exact delivers_fail step he
  | ok inner =>
      rw [hs] at h
      simp only [OperandFrame.run, hd, hcall, hs] at step
      -- The layer is gone when the task is called, and the result takes its place.
      refine Delivers.after (turn_call step) ?_
      rw [new_eq_task hs]
      refine Resolves.handBack h (fun v => .operand ⟨env, .value v :: below⟩) (fun _ => rfl) rfl
        ?_ ?_
      · exact fun _ hr => hr
      · exact fun v hr => ⟨v, hr, rfl⟩

/-- A demand that comes to a result is what the element comes to.  The value is handed to the
frame in which the element has been waiting, through the receiver that all elements share. -/
theorem elementDelivers_of_demand {callee : Callee} {how : Traversal} {item : Value}
    {demand : Demand} {r : Except EvalCause Value}
    (happly : context.registry.apply (scopeIn context env) callee [item] = .ok (.demand demand))
    (h : StartResolves context (demand.start context env) n r) :
    ElementDelivers context env callee how item (1 + n) r := by
  intro items current gathered receiver outer
  cases hs : demand.start context env with
  | error e =>
      rw [hs] at h
      obtain ⟨rfl, cause, he, rfl⟩ := h
      exact delivers_fail (by simp only [Frame.step_traversal, TraversalFrame.step, happly, hs]) he
  | ok inner =>
      rw [hs] at h
      refine Delivers.after
        (turn_call (step_element_call how items current gathered happly hs)) ?_
      refine Resolves.handBack h (fun vs : List Value => .traversal
        ⟨env, callee, how, items, how.park item, vs.reverse ++ gathered⟩) (fun _ => rfl) rfl ?_ ?_
      · rintro cause rfl
        rfl
      · rintro v rfl
        exact absorb_contribution ⟨env, callee, how, items, some item, gathered⟩ rfl v

mutual

/-- **Operands on their own.**  The frame in which an operand starts comes to what the operand
evaluates to.

This and the five statements that follow are one induction on derivations, with one statement for
each relation of the semantics.  None of them can be had before the others, since a body may
demand an operand, and an operand may be a node whose body demands a traversal. -/
theorem resolves_start {env : Environment} {x : Operand} {n : Nat}
    {r : Except EvalCause Value} :
    Evaluates context env x n r → StartResolves context (Frame.start context.pool env x) n r
  | .literal => resolves_of_done rfl
  | .block => ⟨rfl, .bareBlock, rfl, rfl⟩
  | .skip h => by
      rw [Frame.start_skip]
      exact resolves_start h
  | .value h => by
      rcases delivers_start h with ⟨e, hs, -, cause, -, failed⟩ | ⟨layer, hs, delivers⟩
      · cases failed
      · rw [Frame.start_node, hs]
        -- One more turn: a value alone on the stack is the result.
        exact fun receiver outer => ⟨_, _, rfl, rfl, delivers [] receiver outer⟩
  | .failure h => by
      rcases delivers_start h with ⟨e, hs, none, cause, he, failed⟩ | ⟨layer, hs, delivers⟩
      · rw [Frame.start_node, hs]
        exact ⟨none, cause, he, failed⟩
      · rw [Frame.start_node, hs]
        exact fun receiver outer => delivers [] receiver outer

/-- **Nodes among operands.**  There is no such node, and then the cause is that fault and no turn
is taken; or its layer delivers, on top of whatever layers are below. -/
theorem delivers_start {env : Environment} {i n : Nat} {r : Except EvalCause Value} :
    Computes context env i n r →
      (∃ e, Layer.start context.pool env i = .error e ∧ n = 0 ∧
        ∃ cause, e.cause? = some cause ∧ r = .error cause) ∨
      (∃ layer, Layer.start context.pool env i = .ok layer ∧
        LayerDelivers context env n r layer)
  | .dangling hi => .inl ⟨_, start_eq_error hi, rfl, _, rfl, rfl⟩
  | .operand hi h => by
      refine .inr ⟨_, start_eq_ok hi, fun below receiver outer => ?_⟩
      exact delivers_operands h _ [] below receiver outer
  | @Computes.unregistered _ _ _ node _ args hi h hd => by
      refine .inr ⟨_, start_eq_ok hi, (delivers_operands h).apply fun below _ _ => ?_⟩
      have step := step_apply node.signature args below context env
      simp only [OperandFrame.run, hd] at step
      exact delivers_fail step rfl
  | @Computes.body _ _ _ node _ args _ _ hi h hd hcall => by
      refine .inr ⟨_, start_eq_ok hi, (delivers_operands h).apply fun below _ _ => ?_⟩
      have step := step_apply node.signature args below context env
      simp only [OperandFrame.run, hd, hcall] at step
      exact delivers_fail step rfl
  | @Computes.value _ _ _ node _ args _ _ hi h hd hcall => by
      refine .inr ⟨_, start_eq_ok hi, (delivers_operands h).apply fun below _ _ => ?_⟩
      have step := step_apply node.signature args below context env
      simp only [OperandFrame.run, hd, hcall] at step
      exact turn_proceed step
  | .demand hi h hd hcall hm => by
      refine .inr ⟨_, start_eq_ok hi, ?_⟩
      rw [Nat.add_assoc]
      exact (delivers_operands h).apply (layerDelivers_of_demand hd hcall (resolves_demand hm))

/-- **All operands of a node.**  They are evaluated from first to last, each in its turn, and the
first failure is the failure of the node. -/
theorem delivers_operands {env : Environment} {operands : List Operand} {n : Nat}
    {r : Except EvalCause (List Arg)} :
    Prepares context env operands n r → OperandsDeliver context env operands n r
  | .nil => by
      intro signature args below receiver outer
      simp only [Delivers, List.append_nil]
      exact .refl _
  | .literal h => (delivers_operands h).ready rfl
  | .block h => (delivers_operands h).ready rfl
  | .skip h => (delivers_operands h).ready rfl
  | @Prepares.node _ _ i rest m v n r hi h => by
      intro signature args below receiver outer
      rcases delivers_start hi with ⟨e, -, -, cause, -, failed⟩ | ⟨layer, hs, delivers⟩
      · cases failed
      · -- The operand is pushed, computed and filled in; the others follow.
        have push := step_push signature args rest below hs
        have value := delivers (partialLayer env signature args (.node i :: rest) :: below)
          receiver outer
        have fill := step_fill signature args rest below context env i v
        have later := delivers_operands h signature (args ++ [.value v]) below receiver outer
        rw [show m + 2 + n = 1 + m + 1 + n by omega, delivers_map]
        refine Delivers.after (((turn_proceed push).trans value).trans (turn_proceed fill)) ?_
        simpa only [List.append_assoc, List.singleton_append] using later
  | @Prepares.failure _ _ i rest m cause hi => by
      intro signature args below receiver outer
      rcases delivers_start hi with ⟨e, hs, rfl, cause, he, failed⟩ | ⟨layer, hs, delivers⟩
      · cases failed
        exact delivers_fail (step_push_fails signature args rest below hs) he
      · have push := step_push signature args rest below hs
        obtain ⟨e, he, ends⟩ := delivers
          (partialLayer env signature args (.node i :: rest) :: below) receiver outer
        rw [Nat.add_comm]
        exact ⟨e, he, (turn_proceed push).ends ends⟩

/-- **Demands.**  The frame in which a demand starts comes to what meets it: a value that was
deferred, a list that was gone through, or the keys of the host. -/
theorem resolves_demand {env : Environment} {demand : Demand} {n : Nat}
    {r : Except EvalCause Value} :
    Meets context env demand n r → StartResolves context (demand.start context env) n r
  | .force h => resolves_start h
  | .traverse h => resolves_traversal h none []
  | .keys => resolves_keys context context.host.keys []

/-- **One element.**  It is applied, and its contribution is added to the results so far, at once
or after a task of its own. -/
theorem delivers_element {env : Environment} {callee : Callee} {how : Traversal}
    {item : Value} {n : Nat} {r : Except EvalCause Value} :
    Applies context env callee how item n r → ElementDelivers context env callee how item n r
  | .failure happly => fun items current gathered _ _ =>
      delivers_fail (step_element_fails how items current gathered happly) rfl
  | @Applies.value _ _ _ _ _ v happly => by
      intro items current gathered receiver outer
      have step := step_element how items current gathered happly
      rw [absorb_eq context.host _ rfl] at step
      simp only [contribution]
      cases hc : how.combine context.host item v with
      | ok vs =>
          rw [hc] at step
          exact turn_proceed step
      | error cause =>
          rw [hc] at step
          exact delivers_fail step rfl
  | .demand happly hm => by
      rw [Nat.add_comm]
      exact elementDelivers_of_demand happly (resolves_demand hm)

/-- **All elements of a list.**  They are gone through from first to last.  Which element was held
before makes no difference, nor which results were there. -/
theorem resolves_traversal {env : Environment} {callee : Callee} {how : Traversal}
    {items : List Value} {n : Nat} {r : Except EvalCause (List Value)} :
    Gathers context env callee how items n r → (current : Option Value) →
      (gathered : List Value) →
      Resolves context (.traversal ⟨env, callee, how, items, current, gathered⟩) n
        (r.map fun vs => .list (gathered.reverse ++ vs))
  | .nil, current, gathered => by
      have done : Frame.step context (.traversal ⟨env, callee, how, [], current, gathered⟩) =
        .done (.list gathered.reverse) := rfl
      simpa [Except.map] using resolves_of_done done
  | .failure h, current, gathered => fun receiver outer =>
      delivers_element h _ current gathered receiver outer
  | @Gathers.refused _ _ _ _ item items n v cause h hc, current, gathered => by
      intro receiver outer
      have element := delivers_element h items current gathered receiver outer
      simp only [contribution, hc] at element
      exact element
  | @Gathers.cons _ _ _ _ item items n v vs m r h hc hrest, current, gathered => by
      have later := resolves_traversal hrest (how.park item) (vs.reverse ++ gathered)
      have first : ∀ receiver outer, Leads context n
          (task (.traversal ⟨env, callee, how, item :: items, current, gathered⟩) receiver ::
            outer)
          (task (.traversal ⟨env, callee, how, items, how.park item, vs.reverse ++ gathered⟩)
            receiver :: outer) := by
        intro receiver outer
        have element := delivers_element h items current gathered receiver outer
        simp only [contribution, hc] at element
        exact element
      have all := later.after first
      cases r <;> simpa [Except.map] using all

end

/-- The layer of a node with a derivation delivers its result, if the node is there. -/
theorem delivers_of_computes {i : Nat} {r : Except EvalCause Value} {layer : Layer}
    (h : Computes context env i n r) (hs : Layer.start context.pool env i = .ok layer) :
    LayerDelivers context env n r layer := by
  rcases delivers_start h with ⟨e, he, -⟩ | ⟨layer', hs', delivers⟩
  · simp [he] at hs
  · obtain rfl := Except.ok.inj (hs.symm.trans hs')
    exact delivers

/-- An application takes a turn at least, so that a list has no more elements than its traversal
takes turns. -/
theorem Applies.pos {callee : Callee} {how : Traversal} {item : Value}
    {r : Except EvalCause Value} (h : Applies context env callee how item n r) : 0 < n := by
  cases h <;> omega

end RuleEngine.Semantics
