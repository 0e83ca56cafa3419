import RuleEngine.Proofs.Evaluate.Safety
import RuleEngine.Proofs.Operation.Over
import RuleEngine.Proofs.Schedule.Lockstep
import RuleEngine.Proofs.Schedule.Nesting

/-!
# Nodes that are never looked up

An evaluation looks up nodes that its operand leads to, but not only these:
sub-expressions come along in the host's data, in the environment and in the values
of other operands, and their bodies are evaluated as well.  If all of these lead
into a pool without cycles, then so does everything that is ever in a frame.  Nodes
that are added to such a pool therefore change nothing.

* **Looking up.**  There are two places where a node is looked up: a pending slot,
  and the start of a demand.  What is found there is the same over both pools.
* **Staying inside.**  References of a node lead to earlier nodes, and the bodies of
  operations make no operands.  So the frames that a step leads to are as they were.
  The results of called tasks come in through receivers, which are part of the
  invariant.

## Main definitions

* `Slot.Local`, `Layer.Local`, `Frame.Local`, `TaskLocal` - nothing in it leads out
  of the pool.
* `Confined` - an evaluation over a pool without cycles, in which nothing leads out
  of it.

## Main statements

* `local_step`, `local_turn` - steps and turns stay inside.
* `step_of_extends` - over a larger pool they are the same.
* `Confined.evaluate` - so is the whole evaluation, with its counters.
-/

namespace RuleEngine

namespace Evaluate

open Schedule (Lockstep)
open Semantics (Task task)

/-! ### The invariant -/

section Invariant

variable (pool : Pool)

/-- What is there of the argument leads into the pool, and what is not there is a
node of it. -/
def Slot.Local : Slot → Prop
  | ready arg => arg.Over (Operand.Within pool)
  | pending i => i < pool.size

/-- Nothing in the layer leads out of the pool. -/
def Layer.Local : Layer → Prop
  | operation _ slots => ∀ slot ∈ slots, slot.Local pool
  | value v => v.Over (Operand.Within pool)

/-- Nothing in the environment or on the stack leads out of the pool. -/
structure OperandFrame.Local (f : OperandFrame) : Prop where
  /-- Not the values of names. -/
  env : Environment.Over (Operand.Within pool) f.env
  /-- Not the operations under way. -/
  stack : ∀ layer ∈ f.stack, layer.Local pool

/-- Nothing in the traversal leads out of the pool. -/
structure TraversalFrame.Local (f : TraversalFrame) : Prop where
  /-- Not the values of names. -/
  env : Environment.Over (Operand.Within pool) f.env
  /-- Not what is applied. -/
  callee : f.callee.Over (Operand.Within pool)
  /-- Not the elements to come. -/
  items : ∀ v ∈ f.items, v.Over (Operand.Within pool)
  /-- Not the element that it holds. -/
  current : ∀ v ∈ f.current, v.Over (Operand.Within pool)
  /-- Not the results so far. -/
  gathered : ∀ v ∈ f.gathered, v.Over (Operand.Within pool)

/-- Nothing in the frame leads out of the pool. -/
def Frame.Local : Frame → Prop
  | operand f => f.Local pool
  | traversal f => f.Local pool
  | keys _ listed => ∀ v ∈ listed, v.Over (Operand.Within pool)

/-- Nothing in the task leads out of the pool, and what its result makes of the
caller does not either. -/
structure TaskLocal (t : Task) : Prop where
  /-- The frame is local. -/
  state : t.state.Local pool
  /-- The receiver keeps frames local. -/
  receiver : ∀ caller v, caller.Local pool → v.Over (Operand.Within pool) →
    Gives (Frame.Local pool) (t.receiver.getD Frame.receive caller v)

/-- What a step of a local frame comes to. -/
def LocalAction : Action → Prop
  | .proceed next => next.Local pool
  | .call next inner => next.Local pool ∧ TaskLocal pool inner
  | .done v => v.Over (Operand.Within pool)
  | .fail _ => True

end Invariant

/-- Nothing leads out of the pool, and there are no cycles in it. -/
structure Confined (context : Context) : Prop where
  /-- References lead to earlier nodes. -/
  pool : context.pool.Acyclic
  /-- Bodies make no operands. -/
  registry : context.registry.Keeps
  /-- The data of the host does not lead out of the pool. -/
  host : context.host.Over (Operand.Within context.pool)

variable {context : Context} {pool pool' : Pool} {env : Environment} {slots : List Slot}

/-- A layer that stays inside the pool may be put on a stack that does. -/
theorem OperandFrame.local_push {layer : Layer} {stack : List Layer} (hlayer : layer.Local pool)
    (h : OperandFrame.Local pool ⟨env, stack⟩) :
    OperandFrame.Local pool ⟨env, layer :: stack⟩ :=
  ⟨h.env, List.forall_mem_cons.mpr ⟨hlayer, h.stack⟩⟩

/-! ### Slots -/

/-- The slot of an operand that leads into the pool is local: a node among operands is in the
pool, and a deferred operand takes the environment with it. -/
theorem Slot.local_ofOperand {x : Operand} (hx : x.Within pool)
    (henv : Environment.Over (Operand.Within pool) env) :
    (Slot.ofOperand env x).Local pool := by
  cases x with
  | literal text => exact Value.Over.str text
  | node i => exact hx i rfl
  | block inner => exact hx
  | skip inner => exact ⟨hx, henv⟩

/-- Filling a slot brings nothing else into the operation than the value that is filled in. -/
theorem Slot.local_fill? {v : Value} {filled : List Slot} (hv : v.Over (Operand.Within pool))
    (hslots : ∀ slot ∈ slots, slot.Local pool) (h : Slot.fill? v slots = some filled) :
    ∀ slot ∈ filled, slot.Local pool := by
  induction slots generalizing filled with
  | nil => cases h
  | cons slot rest ih =>
      obtain ⟨hslot, hrest⟩ := List.forall_mem_cons.mp hslots
      cases slot with
      | pending i =>
          cases h
          exact List.forall_mem_cons.mpr ⟨hv, hrest⟩
      | ready arg =>
          obtain ⟨others, found, rfl⟩ := Option.map_eq_some_iff.mp h
          exact List.forall_mem_cons.mpr ⟨hslot, ih hrest found⟩

/-! ### Starts -/

/-- References of a node lead to earlier nodes, so the layer of a node is local.  A missing node
is an error, and an error is in no frame. -/
theorem Layer.local_start (acyclic : pool.Acyclic)
    (henv : Environment.Over (Operand.Within pool) env) (i : Nat) :
    Gives (Layer.Local pool) (Layer.start pool env i) := by
  unfold Layer.start
  cases found : pool.get? i with
  | none => trivial
  | some node =>
      intro slot mem
      obtain ⟨x, hx, rfl⟩ := List.mem_map.mp mem
      refine Slot.local_ofOperand (fun j hj => ?_) henv
      have earlier := acyclic i node found j (List.mem_filterMap.mpr ⟨x, hx, hj⟩)
      exact Nat.lt_trans earlier (Pool.lt_of_get? found)

/-- The frame in which an operand begins is local, whatever kind of operand it is. -/
theorem Frame.local_start (acyclic : pool.Acyclic)
    (henv : Environment.Over (Operand.Within pool) env) (x : Operand) :
    Gives (Frame.Local pool) (Frame.start pool env x) := by
  have bottom : OperandFrame.Local pool ⟨env, []⟩ := ⟨henv, nofun⟩
  induction x with
  | literal text => exact OperandFrame.local_push (Value.Over.str text) bottom
  | node i =>
      have begun := Layer.local_start acyclic henv i
      rw [Frame.start_node]
      cases started : Layer.start pool env i with
      | error e => trivial
      | ok layer =>
          rw [started] at begun
          exact OperandFrame.local_push begun bottom
  | block inner _ => trivial
  | skip inner ih => exact ih

/-- The frame in which a demand begins is local.  What is forced or gone through comes from the
arguments of a body, and the keys of the host are texts. -/
theorem local_demandStart (confined : Confined context)
    (henv : Environment.Over (Operand.Within context.pool) env) {demand : Demand}
    (h : demand.Over (Operand.Within context.pool)) :
    Gives (Frame.Local context.pool) (demand.start context env) := by
  cases demand with
  | force s => exact Frame.local_start confined.pool h.2 s.operand
  | traverse items callee how => exact ⟨henv, h.2, h.1, nofun, nofun⟩
  | keys => exact nofun

/-! ### Receivers -/

/-- A value that comes in the common way is put on the stack of an operand; the other frames take
none. -/
theorem Frame.local_receive {caller : Frame} {v : Value} (h : caller.Local pool)
    (hv : v.Over (Operand.Within pool)) : Gives (Frame.Local pool) (caller.receive v) := by
  cases caller with
  | operand f => exact OperandFrame.local_push hv h
  | traversal f => trivial
  | keys keys listed => trivial

/-- A traversal absorbs the result for the element that it holds, and fails if it needs one and
holds none.  What it keeps is the result, its elements, or the element that it has held. -/
theorem TraversalFrame.Local.absorb (host : Host) {f : TraversalFrame} {v : Value}
    (h : f.Local pool) (hv : v.Over (Operand.Within pool)) :
    Gives (TraversalFrame.Local pool) (f.absorb host v) := by
  obtain ⟨env, callee, how, items, current, gathered⟩ := f
  obtain ⟨henv, hcallee, hitems, hcurrent, hgathered⟩ := h
  cases how with
  | map => exact ⟨henv, hcallee, hitems, hcurrent, List.forall_mem_cons.mpr ⟨hv, hgathered⟩⟩
  | filter =>
      cases current with
      | none => trivial
      | some item =>
          have hitem := hcurrent item rfl
          -- The element has been taken, so there is none to speak of.
          have taken : ∀ w : Value, none = some w → w.Over (Operand.Within pool) := by
            intro w h
            cases h
          simp only [TraversalFrame.absorb]
          split
          · exact ⟨henv, hcallee, hitems, taken, List.forall_mem_cons.mpr ⟨hitem, hgathered⟩⟩
          · exact ⟨henv, hcallee, hitems, taken, hgathered⟩
  | flatMap =>
      cases v with
      | list results =>
          refine ⟨henv, hcallee, hitems, hcurrent, fun w hw => ?_⟩
          rcases List.mem_append.mp (List.reverseAux_eq ▸ hw) with hw | hw
          · exact Value.over_list_iff.mp hv w (List.mem_reverse.mp hw)
          · exact hgathered w hw
      | _ => trivial

/-- A task without a receiver of its own hands its result over in the common way, which keeps
callers local. -/
theorem taskLocal_new {routine : Routine} {frame : Frame} (h : frame.Local pool) :
    TaskLocal pool (.new routine frame) :=
  ⟨h, fun _ _ => Frame.local_receive⟩

/-- The receiver of elements keeps callers local as well.  It has nothing in it that could lead
out of the pool, since the element is in the frame of the caller. -/
theorem taskLocal_element {routine : Routine} {frame : Frame} (host : Host)
    (h : frame.Local pool) :
    TaskLocal pool ((Schedule.Task.new routine frame).withReceiver (Frame.collect host)) := by
  refine ⟨h, fun caller v hcaller hv => ?_⟩
  cases caller with
  | operand f => trivial
  | traversal f => exact (TraversalFrame.Local.absorb host hcaller hv).map fun _ next => next
  | keys keys listed => trivial

/-! ### Steps stay inside -/

section Steps

variable (confined : Confined context)

include confined

/-- All that a body may look at leads into the pool. -/
theorem over_scope (henv : Environment.Over (Operand.Within context.pool) env) :
    (context.registry.scope context.host env).Over (Operand.Within context.pool) :=
  ⟨confined.host, henv⟩

/-- Running an operation on local arguments stays inside.  The body hands on operands that it was
given and makes none, so a value or a demand has no others in it. -/
theorem local_run {f : OperandFrame} {signature : Signature} {args : List Arg}
    (hf : f.Local context.pool) (hargs : ∀ arg ∈ args, arg.Over (Operand.Within context.pool)) :
    LocalAction context.pool (f.run context signature args) := by
  unfold OperandFrame.run
  cases found : context.registry.find? signature with
  | none => trivial
  | some d =>
      have called := confined.registry.call (over_scope confined hf.env)
        (confined.registry.of_find? found) hargs
      dsimp only
      cases outcome : context.registry.call (context.registry.scope context.host f.env) d.body
          args with
      | error cause => trivial
      | ok result =>
          rw [outcome] at called
          cases result with
          | value v => exact OperandFrame.local_push called hf
          | demand demand =>
              have begun := local_demandStart confined hf.env called
              dsimp only
              cases started : demand.start context f.env with
              | error e => trivial
              | ok inner =>
                  rw [started] at begun
                  exact ⟨hf, taskLocal_new begun⟩

/-- The steps of operands stay inside: a slot is filled, a node is looked up, or an operation is
run. -/
theorem local_operandStep {f : OperandFrame} (hf : f.Local context.pool) :
    LocalAction context.pool (f.step context) := by
  obtain ⟨env, stack⟩ := f
  unfold OperandFrame.step
  dsimp only
  split
  · trivial
  · rename_i v
    exact hf.stack (.value v) (by simp)
  · rename_i v signature slots below
    obtain ⟨hv, hrest⟩ := List.forall_mem_cons.mp hf.stack
    obtain ⟨hslots, hbelow⟩ := List.forall_mem_cons.mp hrest
    cases filled : Slot.fill? v slots with
    | none => trivial
    | some slots' =>
        have hlayer : (Layer.operation signature slots').Local context.pool :=
          Slot.local_fill? hv hslots filled
        exact OperandFrame.local_push hlayer ⟨hf.env, hbelow⟩
  · trivial
  · rename_i signature slots below
    obtain ⟨hslots, hbelow⟩ := List.forall_mem_cons.mp hf.stack
    show LocalAction context.pool
      (OperandFrame.step context ⟨env, .operation signature slots :: below⟩)
    rw [OperandFrame.step_operation]
    cases arguments : Slot.arguments slots with
    | ok args =>
        obtain ⟨-, ready⟩ := Slot.mem_of_arguments_eq_ok arguments
        refine local_run confined ⟨hf.env, hbelow⟩ fun arg mem => ?_
        exact hslots (.ready arg) (ready arg mem)
    | error i =>
        have begun := Layer.local_start confined.pool hf.env i
        dsimp only
        cases started : Layer.start context.pool env i with
        | error e => trivial
        | ok layer =>
            rw [started] at begun
            exact OperandFrame.local_push begun hf

/-- The steps of traversals stay inside: an element is applied, and it is held until its result is
absorbed. -/
theorem local_traversalStep {f : TraversalFrame} (hf : f.Local context.pool) :
    LocalAction context.pool (f.step context) := by
  obtain ⟨env, callee, how, items, current, gathered⟩ := f
  cases items with
  | nil => exact Value.Over.list fun v hv => hf.gathered v (List.mem_reverse.mp hv)
  | cons item items =>
      obtain ⟨hitem, hitems⟩ := List.forall_mem_cons.mp hf.items
      have rest : TraversalFrame.Local context.pool
          ⟨env, callee, how, items, some item, gathered⟩ := by
        refine ⟨hf.env, hf.callee, hitems, ?_, hf.gathered⟩
        rintro v ⟨⟩
        exact hitem
      -- The callee and the element have been in the frame, so the outcome has no other operands.
      have applied := confined.registry.apply (over_scope confined hf.env) hf.callee
        (List.forall_mem_singleton.mpr hitem)
      unfold TraversalFrame.step
      dsimp only
      cases outcome : context.registry.apply (context.registry.scope context.host env) callee
          [item] with
      | error cause => trivial
      | ok result =>
          rw [outcome] at applied
          cases result with
          | value v =>
              have next := rest.absorb context.host applied
              dsimp only
              cases absorbed : TraversalFrame.absorb context.host
                  ⟨env, callee, how, items, some item, gathered⟩ v with
              | error e => trivial
              | ok next' =>
                  rw [absorbed] at next
                  exact next
          | demand demand =>
              have begun := local_demandStart confined hf.env applied
              dsimp only
              cases started : demand.start context env with
              | error e => trivial
              | ok inner =>
                  rw [started] at begun
                  exact ⟨rest, taskLocal_element context.host begun⟩

/-- **Steps stay inside the pool.**  The frame that a step leads to is local, a called task with
it, and so is the value that a task is done with. -/
theorem local_step {frame : Frame} (h : frame.Local context.pool) :
    LocalAction context.pool (frame.step context) := by
  cases frame with
  | operand f => exact local_operandStep confined h
  | traversal f => exact local_traversalStep confined h
  | keys keys listed =>
      cases keys with
      | nil => exact Value.Over.list fun v hv => h v (List.mem_reverse.mp hv)
      | cons key rest => exact List.forall_mem_cons.mpr ⟨.str key, h⟩

/-- So does a task with any routine, which may fail on its frame. -/
theorem local_program {frame : Frame} (h : frame.Local context.pool) (routine : Routine) :
    LocalAction context.pool (program context routine frame) := by
  rw [program_eq]
  split
  · exact local_step confined h
  · trivial

/-- **So do turns**: a result enters the caller through a receiver that keeps it local.  All tasks
of a stack remain local, not only the one on top. -/
theorem local_turn {tasks next : List Task} (h : ∀ t ∈ tasks, TaskLocal context.pool t)
    (going : Schedule.turn (program context) (some Frame.receive) tasks =
      .going next) : ∀ t ∈ next, TaskLocal context.pool t := by
  cases tasks with
  | nil => cases going
  | cons t outer =>
      obtain ⟨ht, houter⟩ := List.forall_mem_cons.mp h
      have action := local_program confined ht.state t.routine
      rcases Schedule.exists_of_turn_eq_going going with
        ⟨state, stepped, rfl⟩ | ⟨state, inner, stepped, rfl⟩ |
        ⟨v, caller, rest, state, stepped, rfl, taken, rfl⟩
      · rw [stepped] at action
        exact List.forall_mem_cons.mpr ⟨⟨action, ht.receiver⟩, houter⟩
      · rw [stepped] at action
        obtain ⟨hstate, hinner⟩ := action
        exact List.forall_mem_cons.mpr
          ⟨hinner, List.forall_mem_cons.mpr ⟨⟨hstate, ht.receiver⟩, houter⟩⟩
      · rw [stepped] at action
        obtain ⟨hcaller, hrest⟩ := List.forall_mem_cons.mp houter
        have kept := ht.receiver caller.state v hcaller.state action
        rw [taken] at kept
        exact List.forall_mem_cons.mpr ⟨⟨kept, hcaller.receiver⟩, hrest⟩

end Steps

/-! ### Larger pools -/

section Larger

variable {host : Host} {registry : Registry} (more : pool.Extends pool')

include more

/-- A node of the pool is the same in a larger one, and this is all that an evaluation sees of
pools. -/
theorem Layer.start_of_extends {i : Nat} (h : i < pool.size) :
    Layer.start pool env i = Layer.start pool' env i := by
  cases found : pool.get? i with
  | none => exact absurd (Pool.get?_eq_none_iff.mp found) (Nat.not_le.mpr h)
  | some node => simp only [Layer.start, found, more i node found]

/-- An operand inside the pool begins in the same frame over a larger one. -/
theorem Frame.start_of_extends {x : Operand} (h : x.Within pool) :
    Frame.start pool env x = Frame.start pool' env x := by
  induction x with
  | literal text => rfl
  | node i => simp only [Frame.start_node, Layer.start_of_extends more (h i rfl)]
  | block inner _ => rfl
  | skip inner ih => exact ih h

/-- So does a demand.  Only forced operands depend on the pool at all. -/
theorem demandStart_of_extends {demand : Demand} (h : demand.Over (Operand.Within pool)) :
    demand.start ⟨host, registry, pool⟩ env = demand.start ⟨host, registry, pool'⟩ env := by
  cases demand with
  | force s => exact Frame.start_of_extends more h.1
  | traverse items callee how => rfl
  | keys => rfl

variable (confined : Confined ⟨host, registry, pool⟩)

include confined

/-- An operation is run in the same way over a larger pool.  Bodies do not see the pool, and what
they demand leads into the smaller one. -/
theorem OperandFrame.run_of_pool_extends {f : OperandFrame} {signature : Signature}
    {args : List Arg} (hf : f.Local pool) (hargs : ∀ arg ∈ args, arg.Over (Operand.Within pool)) :
    f.run ⟨host, registry, pool⟩ signature args =
      f.run ⟨host, registry, pool'⟩ signature args := by
  unfold OperandFrame.run
  dsimp only
  cases found : registry.find? signature with
  | none => rfl
  | some d =>
      have called := confined.registry.call (over_scope confined hf.env)
        (confined.registry.of_find? found) hargs
      dsimp only at called ⊢
      cases outcome : registry.call (registry.scope host f.env) d.body args with
      | error cause => rfl
      | ok result =>
          rw [outcome] at called
          cases result with
          | value v => rfl
          | demand demand => simp only [demandStart_of_extends more called]

/-- The step of an operand looks up the node of the first pending slot, which is in the pool. -/
theorem OperandFrame.step_of_pool_extends {f : OperandFrame} (hf : f.Local pool) :
    f.step ⟨host, registry, pool⟩ = f.step ⟨host, registry, pool'⟩ := by
  obtain ⟨env, stack⟩ := f
  unfold OperandFrame.step
  dsimp only
  split
  · rfl
  · rfl
  · rfl
  · rfl
  · rename_i signature slots below
    obtain ⟨hslots, hbelow⟩ := List.forall_mem_cons.mp hf.stack
    show OperandFrame.step ⟨host, registry, pool⟩ ⟨env, .operation signature slots :: below⟩ =
      OperandFrame.step ⟨host, registry, pool'⟩ ⟨env, .operation signature slots :: below⟩
    rw [OperandFrame.step_operation, OperandFrame.step_operation]
    cases arguments : Slot.arguments slots with
    | ok args =>
        obtain ⟨-, ready⟩ := Slot.mem_of_arguments_eq_ok arguments
        refine OperandFrame.run_of_pool_extends more confined ⟨hf.env, hbelow⟩ fun arg mem => ?_
        exact hslots (.ready arg) (ready arg mem)
    | error i =>
        have inside : i < pool.size := hslots _ (Slot.mem_of_arguments_eq_error arguments)
        simp only [Layer.start_of_extends more inside]

/-- The step of a traversal looks up a node only if it forces the body that is applied, which
leads into the pool as well. -/
theorem TraversalFrame.step_of_pool_extends {f : TraversalFrame} (hf : f.Local pool) :
    f.step ⟨host, registry, pool⟩ = f.step ⟨host, registry, pool'⟩ := by
  obtain ⟨env, callee, how, items, current, gathered⟩ := f
  cases items with
  | nil => rfl
  | cons item items =>
      obtain ⟨hitem, -⟩ := List.forall_mem_cons.mp hf.items
      have applied := confined.registry.apply (over_scope confined hf.env) hf.callee
        (List.forall_mem_singleton.mpr hitem)
      unfold TraversalFrame.step
      dsimp only at applied ⊢
      cases outcome : registry.apply (registry.scope host env) callee [item] with
      | error cause => rfl
      | ok result =>
          rw [outcome] at applied
          cases result with
          | value v => rfl
          | demand demand => simp only [demandStart_of_extends more applied]

/-- **A step of a local frame is the same** over a larger pool. -/
theorem step_of_extends {frame : Frame} (h : frame.Local pool) :
    frame.step ⟨host, registry, pool⟩ = frame.step ⟨host, registry, pool'⟩ := by
  cases frame with
  | operand f => exact OperandFrame.step_of_pool_extends more confined h
  | traversal f => exact TraversalFrame.step_of_pool_extends more confined h
  | keys keys listed => cases keys <;> rfl

/-- The routines do the same over both pools, on frames of their own kind and of others. -/
theorem program_of_extends (routine : Routine) {frame : Frame} (h : frame.Local pool) :
    program ⟨host, registry, pool⟩ routine frame =
      program ⟨host, registry, pool'⟩ routine frame := by
  rw [program_eq, program_eq, step_of_extends more confined h]

/-- So turns over both pools lead from the same tasks to the same tasks, as long as these are
local, which they remain. -/
theorem lockstep_of_extends : Lockstep (program ⟨host, registry, pool⟩)
    (program ⟨host, registry, pool'⟩) (some Frame.receive)
    (fun tasks => ∀ t ∈ tasks, TaskLocal pool t) where
  agree := by
    intro tasks h
    cases tasks with
    | nil => rfl
    | cons t outer =>
        have inner : t.state.Local pool := (h t List.mem_cons_self).state
        simp only [Schedule.turn, program_of_extends more confined t.routine inner]
  keeps := fun _ _ => local_turn confined

/-- **Added nodes change nothing.**  An evaluation of which nothing leads out of the pool is the
same over a larger pool, with its counters, whether it comes to a value, fails, or exceeds its
budget. -/
theorem Confined.evaluate (s : Schedule.Scheduler) {root : Operand} (hroot : root.Within pool)
    (henv : Environment.Over (Operand.Within pool) env) :
    Context.evaluate ⟨host, registry, pool⟩ s env root =
      Context.evaluate ⟨host, registry, pool'⟩ s env root := by
  have begun := Frame.local_start confined.pool henv root
  unfold Context.evaluate
  dsimp only
  rw [← Frame.start_of_extends more hroot]
  cases started : Frame.start pool env root with
  | error e => rfl
  | ok frame =>
      rw [started] at begun
      have start : ∀ t ∈ [Schedule.Task.new .operand frame].reverse, TaskLocal pool t :=
        List.forall_mem_singleton.mpr (taskLocal_new begun)
      dsimp only
      rw [(lockstep_of_extends more confined).runStack s start]

end Larger

end Evaluate

end RuleEngine
