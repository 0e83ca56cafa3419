import RuleEngine.Proofs.Evaluate.Adequacy
import RuleEngine.Proofs.Parse.Recognition
import RuleEngine.Proofs.Standard.Bodies

/-!
# Evaluation breaks no assertion

The steps of an evaluation check what they find, and fail with an internal error
where a state makes no sense.  Here it is shown that no such state is reached
from an expression that was parsed.  The invariant is about all tasks at once:

* the innermost frame has something to do: if it evaluates an operand, there is a
  value or an operation on top, and below it there are only operations that wait
  for a value;
* every other frame awaits the result of the task inside: an operand with
  operations that wait, if results come in the common way, and a traversal that
  holds an element, if they come for one;
* every task runs the routine of its frame;
* everything in the frames is sound.

## Main definitions

* `EvalError.Proper` - an error that is not an inconsistency.
* `Slot.Sound`, `Layer.Sound`, `Layer.Waits`, `Frame.Sound` - frames that make
  sense.
* `Awaits` - a frame that can take a result.
* `WellFormed` - the invariant.

## Main statements

* `sound_step` - every step of a sound frame makes sense.
* `wellFormed_turn` - every turn preserves the invariant, and a run that is over
  has a sound value or a proper error.
* `standard_evaluate_safe` - evaluation under the standard library is safe.

## Design notes

Each assertion of a step is met by a clause of the invariant.  A frame has the routine that
its task runs; an operand's stack has a layer on top that is a value or an operation, with
operations below it that wait for a value; a slot that waits is there to be filled, and
there is none when the operation is run; a traversal which has called a task for an element
holds that element, until the result has come in through the receiver of elements.  What
the invariant does not rule out are the errors in which an expression may end: those of
operations, and a braced body where a value is needed.
-/

namespace RuleEngine

/-- The error is one that an expression may lead to. -/
def EvalError.Proper : EvalError → Prop
  | unregistered _ _ => False
  | operator _ cause _ => cause.Proper
  | bareBlock => True
  | budgetExceeded _ => True
  | internal _ => False

namespace Evaluate

open Schedule (Stop)
open Semantics (Task Leads Ends task)

/-! ### The invariant -/

section Invariant

variable (registry : Registry) (pool : Pool)

/-- What is there of the argument is sound, and what is not there is a node. -/
def Slot.Sound : Slot → Prop
  | ready arg => arg.Sound registry pool
  | pending i => i < pool.size

/-- The operation is registered and has a slot for each operand; the value is
sound. -/
def Layer.Sound : Layer → Prop
  | operation signature slots => (∃ d, registry.find? signature = some d) ∧
      slots.length = signature.arity ∧ ∀ slot ∈ slots, slot.Sound registry pool
  | value v => v.Sound registry pool

/-- The layer is an operation and an operand of it is not there yet. -/
def Layer.Waits (layer : Layer) : Prop :=
  layer.Sound registry pool ∧
    ∃ signature slots i, layer = .operation signature slots ∧ Slot.arguments slots = .error i

/-- There is something on top, and all operations below wait. -/
structure OperandFrame.Running (f : OperandFrame) : Prop where
  /-- The environment is sound. -/
  env : Environment.Sound registry pool f.env
  /-- There is a sound layer on top of operations that wait. -/
  stack : ∃ top below, f.stack = top :: below ∧ top.Sound registry pool ∧
    ∀ layer ∈ below, layer.Waits registry pool

/-- All operations wait, for a result that is still to come. -/
structure OperandFrame.Suspended (f : OperandFrame) : Prop where
  /-- The environment is sound. -/
  env : Environment.Sound registry pool f.env
  /-- All operations wait. -/
  stack : ∀ layer ∈ f.stack, layer.Waits registry pool

/-- All values of a traversal are sound. -/
structure TraversalFrame.Sound (f : TraversalFrame) : Prop where
  /-- The environment is sound. -/
  env : Environment.Sound registry pool f.env
  /-- What is applied is sound. -/
  callee : f.callee.Sound registry pool
  /-- The elements to come are sound. -/
  items : ∀ v ∈ f.items, v.Sound registry pool
  /-- The element that it holds is sound. -/
  current : ∀ v ∈ f.current, v.Sound registry pool
  /-- The results so far are sound. -/
  gathered : ∀ v ∈ f.gathered, v.Sound registry pool

/-- A frame that can take a step. -/
def Frame.Sound : Frame → Prop
  | operand f => f.Running registry pool
  | traversal f => f.Sound registry pool
  | keys _ listed => ∀ v ∈ listed, v.Sound registry pool

end Invariant

variable (context : Context)

/-- A frame that can take the result of a task with this receiver. -/
inductive Awaits : Option (Frame → Value → Except EvalError Frame) → Frame → Prop
  | operand {f} : f.Suspended context.registry context.pool → Awaits none (.operand f)
  | element {f} : f.Sound context.registry context.pool → f.current.isSome →
      Awaits (some (Frame.collect context.host)) (.traversal f)

/-- All tasks run the routines of their frames, and await the result of the one
inside. -/
inductive Outer : Option (Frame → Value → Except EvalError Frame) → List Task → Prop
  | nil {receiver} : Outer receiver []
  | cons {receiver task outer} : Fits task → Awaits context receiver task.state →
      Outer task.receiver outer → Outer receiver (task :: outer)

/-- The innermost task can take a step, and all others await its result. -/
def WellFormed : List Task → Prop
  | [] => False
  | task :: outer =>
      Fits task ∧ task.state.Sound context.registry context.pool ∧
        Outer context task.receiver outer

/-- What makes evaluation safe. -/
structure Safe : Prop where
  /-- The registry is safe. -/
  registry : context.registry.Safe
  /-- The pool is sound. -/
  pool : context.pool.Sound context.registry
  /-- The data of the host is sound. -/
  host : context.host.Sound context.registry context.pool

/-- What a step of a sound frame has to come to. -/
def SoundAction : Action → Prop
  | .proceed next => next.Sound context.registry context.pool
  | .call state inner => inner.state.Sound context.registry context.pool ∧
      Awaits context inner.receiver state
  | .done v => v.Sound context.registry context.pool
  | .fail e => e.Proper

/-- The computation gives what is promised, or fails properly. -/
def Properly {α : Type} (P : α → Prop) : Except EvalError α → Prop
  | .ok a => P a
  | .error e => e.Proper

variable {context} {registry : Registry} {pool : Pool} {env : Environment} {slots : List Slot}

/-! ### Slots -/

/-- The slot of an operand inside the pool is sound: what is ready is so in a sound environment,
and what is pending is in the pool. -/
theorem Slot.sound_ofOperand {x : Operand} (hx : x.Within pool)
    (henv : Environment.Sound registry pool env) :
    (Slot.ofOperand env x).Sound registry pool := by
  cases x with
  | literal text => exact Value.Sound.str text
  | node i => exact hx i rfl
  | block inner => exact hx
  | skip inner => exact ⟨hx, henv⟩

/-- The arguments are those in the slots, one for each of them, so that an operation is run on as
many arguments as its signature says. -/
theorem Slot.mem_of_arguments_eq_ok {args : List Arg} (h : Slot.arguments slots = .ok args) :
    args.length = slots.length ∧ ∀ arg ∈ args, Slot.ready arg ∈ slots := by
  induction slots generalizing args with
  | nil =>
      cases h
      exact ⟨rfl, nofun⟩
  | cons slot rest ih =>
      cases slot with
      | pending i => cases h
      | ready arg =>
          obtain ⟨others, found, rfl⟩ := Slot.arguments_ready_cons_eq_ok_iff.mp h
          obtain ⟨length, ready⟩ := ih found
          refine ⟨congrArg (· + 1) length, ?_⟩
          intro a ha
          rcases List.mem_cons.mp ha with rfl | ha
          · exact List.mem_cons_self
          · exact List.mem_cons_of_mem _ (ready a ha)

/-- The node that an operation waits for is that of one of its slots. -/
theorem Slot.mem_of_arguments_eq_error {i : Nat} (h : Slot.arguments slots = .error i) :
    Slot.pending i ∈ slots := by
  induction slots with
  | nil => cases h
  | cons slot rest ih =>
      cases slot with
      | pending j =>
          cases h
          exact List.mem_cons_self
      | ready arg =>
          have found := Slot.arguments_ready_cons_eq_error_iff.mp h
          exact List.mem_cons_of_mem _ (ih found)

/-- A slot that waits can be filled, and nothing but the value comes in.  This is why a value
never finds an operation below it without a slot for it. -/
theorem Slot.exists_fill? {i : Nat} (v : Value) (h : Slot.arguments slots = .error i) :
    ∃ filled, Slot.fill? v slots = some filled ∧ filled.length = slots.length ∧
      ∀ slot ∈ filled, slot = .ready (.value v) ∨ slot ∈ slots := by
  induction slots with
  | nil => cases h
  | cons slot rest ih =>
      cases slot with
      | pending j =>
          refine ⟨.ready (.value v) :: rest, rfl, rfl, ?_⟩
          intro slot hslot
          rcases List.mem_cons.mp hslot with rfl | hslot
          · exact .inl rfl
          · exact .inr (List.mem_cons_of_mem _ hslot)
      | ready arg =>
          obtain ⟨filled, found, length, slots⟩ := ih (Slot.arguments_ready_cons_eq_error_iff.mp h)
          refine ⟨.ready arg :: filled, by simp [Slot.fill?, found],
            congrArg (· + 1) length, ?_⟩
          intro slot hslot
          rcases List.mem_cons.mp hslot with rfl | hslot
          · exact .inr List.mem_cons_self
          · exact (slots slot hslot).imp_right (List.mem_cons_of_mem _)

/-! ### Starts -/

/-- The layer of a node in a sound pool is sound.  It has as many slots as the registered
operation takes arguments. -/
theorem Layer.sound_ofNode {i : Nat} {node : Node} (sound : pool.Sound registry)
    (found : pool.get? i = some node) (henv : Environment.Sound registry pool env) :
    (Layer.ofNode env node).Sound registry pool := by
  refine ⟨sound.registered i node found, by simp, ?_⟩
  intro slot hslot
  obtain ⟨x, hx, rfl⟩ := List.mem_map.mp hslot
  refine Slot.sound_ofOperand ?_ henv
  intro j hj
  -- References lead to earlier nodes, and these are in the pool as the node is.
  have earlier := sound.acyclic i node found j (List.mem_filterMap.mpr ⟨x, hx, hj⟩)
  exact Nat.lt_trans earlier (Pool.lt_of_get? found)

/-- The operation of a node of the pool can be begun, as the node is there. -/
theorem Layer.exists_start {i : Nat} (sound : pool.Sound registry) (h : i < pool.size)
    (henv : Environment.Sound registry pool env) :
    ∃ layer, Layer.start pool env i = .ok layer ∧ layer.Sound registry pool := by
  cases found : pool.get? i with
  | none =>
      have := Pool.get?_eq_none_iff.mp found
      omega
  | some node =>
      refine ⟨.ofNode env node, ?_, sound_ofNode sound found henv⟩
      simp only [start, found]

/-- A single layer, with nothing below it that would have to wait, is a frame that has something
to do. -/
theorem OperandFrame.running_singleton {layer : Layer} (henv : Environment.Sound registry pool env)
    (hlayer : layer.Sound registry pool) :
    OperandFrame.Running registry pool ⟨env, [layer]⟩ :=
  ⟨henv, layer, [], rfl, hlayer, nofun⟩

/-- A frame begins with an operand inside the pool.  The only error is that of a braced body,
which is one that an expression may lead to. -/
theorem Frame.properly_start (sound : pool.Sound registry) {x : Operand} (hx : x.Within pool)
    (henv : Environment.Sound registry pool env) :
    Properly (Frame.Sound registry pool) (Frame.start pool env x) := by
  induction x with
  | literal text => exact OperandFrame.running_singleton henv (Value.Sound.str text)
  | node i =>
      obtain ⟨layer, started, hlayer⟩ := Layer.exists_start sound (hx i rfl) henv
      rw [Frame.start_node, started]
      exact OperandFrame.running_singleton henv hlayer
  | block inner _ => trivial
  | skip inner ih => exact ih hx

theorem Demand.properly_start (safe : Safe context)
    (henv : Environment.Sound context.registry context.pool env) {demand : Demand}
    (h : demand.Sound context.registry context.pool) :
    Properly (Frame.Sound context.registry context.pool) (demand.start context env) := by
  cases demand with
  | force s => exact Frame.properly_start safe.pool h.1 h.2
  | traverse items callee how => exact ⟨henv, h.2, h.1, nofun, nofun⟩
  | keys => exact nofun

/-! ### Steps -/

/-- A registered operation that is run on sound arguments, as many as it takes, goes on in a way
that makes sense: its body is safe, and what it demands is sound. -/
theorem sound_apply (safe : Safe context) {f : OperandFrame} {signature : Signature}
    {args : List Arg} {d : Definition}
    (hf : f.Suspended context.registry context.pool)
    (found : context.registry.find? signature = some d)
    (length : args.length = signature.arity)
    (hargs : ∀ arg ∈ args, arg.Sound context.registry context.pool) :
    SoundAction context (f.run context signature args) := by
  have hscope := Registry.sound_scope safe.registry.regular safe.host hf.env
  have hbody : d.body.Safe context.registry args.length :=
    length ▸ safe.registry.body_of_find? found
  have called := Registry.safely_call safe.registry hscope hbody hargs
  simp only [OperandFrame.run, found]
  split
  · rename_i cause failed
    rw [failed] at called
    exact called
  · rename_i v hv
    rw [hv] at called
    exact ⟨hf.env, .value v, f.stack, rfl, called, hf.stack⟩
  · rename_i demand hdemand
    rw [hdemand] at called
    have begun := Demand.properly_start safe hf.env called
    split
    · rename_i e failed
      rw [failed] at begun
      exact begun
    · rename_i inner started
      rw [started] at begun
      exact ⟨begun, .operand hf⟩

/-- A value on top of an operation that waits fills a slot of it.  Below, all operations still
wait, so the operation is the only one that may have something to do next. -/
theorem sound_fill {v : Value} {layer : Layer} {below : List Layer}
    (henv : Environment.Sound context.registry context.pool env)
    (hv : v.Sound context.registry context.pool)
    (hlayer : layer.Waits context.registry context.pool)
    (hbelow : ∀ layer ∈ below, layer.Waits context.registry context.pool) :
    SoundAction context (OperandFrame.step context ⟨env, .value v :: layer :: below⟩) := by
  obtain ⟨sound, signature, slots, i, rfl, waits⟩ := hlayer
  obtain ⟨registered, length, hslots⟩ := sound
  obtain ⟨filled, found, length', origin⟩ := Slot.exists_fill? v waits
  simp only [OperandFrame.step, found]
  refine ⟨henv, _, below, rfl, ⟨registered, length'.trans length, ?_⟩, hbelow⟩
  intro slot hslot
  rcases origin slot hslot with rfl | hslot
  · exact hv
  · exact hslots slot hslot

/-- Every step in the evaluation of an operand makes sense.  The cases are those of the layer on
top; an empty stack and a value on top of a value are ruled out by the invariant. -/
theorem sound_operandStep (safe : Safe context) {f : OperandFrame}
    (hf : f.Running context.registry context.pool) :
    SoundAction context (f.step context) := by
  obtain ⟨env, stack⟩ := f
  obtain ⟨henv, top, below, rfl, htop, hbelow⟩ := hf
  cases top with
  | value v =>
      cases below with
      | nil => exact htop
      | cons layer below =>
          -- Below a value there is an operation that waits, never another value.
          refine sound_fill henv htop (hbelow layer List.mem_cons_self) ?_
          exact fun layer hlayer => hbelow layer (List.mem_cons_of_mem _ hlayer)
  | operation signature slots =>
      obtain ⟨⟨d, found⟩, length, hslots⟩ := htop
      rw [OperandFrame.step_operation]
      cases arguments : Slot.arguments slots with
      | ok args =>
          obtain ⟨length', ready⟩ := Slot.mem_of_arguments_eq_ok arguments
          refine sound_apply safe ⟨henv, hbelow⟩ found (length'.trans length) ?_
          exact fun arg harg => hslots _ (ready arg harg)
      | error i =>
          have inside : i < context.pool.size :=
            hslots _ (Slot.mem_of_arguments_eq_error arguments)
          obtain ⟨layer, started, hlayer⟩ := Layer.exists_start safe.pool inside henv
          simp only [started]
          refine ⟨henv, layer, _, rfl, hlayer, ?_⟩
          -- The operation was on top and now waits for the one that was begun.
          intro l hl
          rcases List.mem_cons.mp hl with rfl | hl
          · exact ⟨⟨⟨d, found⟩, length, hslots⟩, signature, slots, i, rfl, arguments⟩
          · exact hbelow l hl

/-- What an element contributes is sound, whether it is the result, the element itself, or the
elements of a list. -/
theorem safely_combine (host : Host) (how : Traversal) {item v : Value}
    (hitem : item.Sound registry pool) (hv : v.Sound registry pool) :
    Safely (fun vs => ∀ w ∈ vs, w.Sound registry pool) (how.combine host item v) := by
  cases how with
  | map =>
      intro w hw
      rw [List.mem_singleton.mp hw]
      exact hv
  | filter =>
      intro w hw
      split at hw
      · rw [List.mem_singleton.mp hw]
        exact hitem
      · cases hw
  | flatMap =>
      cases hv with
      | list hitems => exact hitems
      | _ => exact safely_invalid (by decide)

/-- A traversal that holds an element absorbs the result for it and stays sound.  Only a filter
needs the element, and the failure for want of one is ruled out by what is held. -/
theorem properly_absorb (host : Host) {f : TraversalFrame} (hf : f.Sound registry pool)
    (held : f.current.isSome) {v : Value} (hv : v.Sound registry pool) :
    Properly (TraversalFrame.Sound registry pool) (f.absorb host v) := by
  obtain ⟨item, parked⟩ := Option.isSome_iff_exists.mp held
  have hitem := hf.current item parked
  have combined := safely_combine host f.traversal hitem hv
  rw [Semantics.absorb_eq host f parked]
  cases contributed : f.traversal.combine host item v with
  | error cause =>
      rw [contributed] at combined
      exact combined
  | ok vs =>
      rw [contributed] at combined
      refine ⟨hf.env, hf.callee, hf.items, ?_, ?_⟩
      · intro w hw
        cases how : f.traversal <;> simp only [how, Traversal.park] at hw <;> cases hw <;>
          exact hitem
      · intro w hw
        rcases List.mem_append.mp hw with hw | hw
        · exact combined w (List.mem_reverse.mp hw)
        · exact hf.gathered w hw

/-- Every step of a traversal makes sense.  The frame that awaits the result of a called task
holds the element, which is what the receiver will rely on. -/
theorem sound_traversalStep (safe : Safe context) {f : TraversalFrame}
    (hf : f.Sound context.registry context.pool) :
    SoundAction context (f.step context) := by
  obtain ⟨env, callee, how, items, current, gathered⟩ := f
  have hscope := Registry.sound_scope safe.registry.regular safe.host hf.env
  cases items with
  | nil =>
      refine Value.Sound.list fun v hv => ?_
      exact hf.gathered v (List.mem_reverse.mp hv)
  | cons item items =>
      have hitem := hf.items item List.mem_cons_self
      -- While its result is computed, the element is parked in the frame.
      have rest : TraversalFrame.Sound context.registry context.pool
          ⟨env, callee, how, items, some item, gathered⟩ := by
        refine ⟨hf.env, hf.callee, fun v hv => hf.items v (List.mem_cons_of_mem _ hv), ?_,
          hf.gathered⟩
        rintro v ⟨⟩
        exact hitem
      have one : ∀ v ∈ [item], v.Sound context.registry context.pool := by simpa using hitem
      have applied := Registry.safely_apply safe.registry hscope hf.callee one
      simp only [TraversalFrame.step]
      split
      · rename_i cause failed
        rw [failed] at applied
        exact applied
      · rename_i v hv
        rw [hv] at applied
        have next := properly_absorb context.host rest rfl applied
        split
        · rename_i e refused
          rw [refused] at next
          exact next
        · rename_i f' absorbed
          rw [absorbed] at next
          exact next
      · rename_i demand hdemand
        rw [hdemand] at applied
        have begun := Demand.properly_start safe hf.env applied
        split
        · rename_i e failed
          rw [failed] at begun
          exact begun
        · rename_i inner started
          rw [started] at begun
          exact ⟨begun, .element rest rfl⟩

/-- **Every step of a sound frame makes sense**: it leads to a sound frame, calls a sound task and
awaits it, is done with a sound value, or fails with a proper error. -/
theorem sound_step (safe : Safe context) {frame : Frame}
    (h : frame.Sound context.registry context.pool) : SoundAction context (frame.step context) := by
  cases frame with
  | operand f => exact sound_operandStep safe h
  | traversal f => exact sound_traversalStep safe h
  | keys keys listed =>
      cases keys with
      | nil =>
          refine Value.Sound.list fun v hv => ?_
          exact h v (List.mem_reverse.mp hv)
      | cons key rest =>
          intro v hv
          rcases List.mem_cons.mp hv with rfl | hv
          · exact .str key
          · exact h v hv

/-! ### Runs -/

/-- What a run may end with. -/
def SoundResult (context : Context) : Except (Stop EvalError) Value → Prop
  | .ok v => v.Sound context.registry context.pool
  | .error (.raised e) => e.Proper
  | .error (.fault _) => False

/-- A frame that awaits a result takes it, and goes on under the same routine.  Which receiver the
result comes through is settled when the task is called, and the frame is known to suit it since
then. -/
theorem Awaits.exists_receive {receiver : Option (Frame → Value → Except EvalError Frame)}
    {caller : Frame} (h : Awaits context receiver caller) {v : Value}
    (hv : v.Sound context.registry context.pool) :
    ∃ receive, receiver.or (some Frame.receive) = some receive ∧
      Properly (fun next => next.routine = caller.routine ∧
        next.Sound context.registry context.pool) (receive caller v) := by
  cases h with
  | operand suspended =>
      exact ⟨Frame.receive, rfl, rfl, suspended.env, .value v, _, rfl, hv, suspended.stack⟩
  | @element f sound held =>
      refine ⟨Frame.collect context.host, rfl, ?_⟩
      have next := properly_absorb context.host sound held hv
      simp only [Frame.collect]
      cases absorbed : f.absorb context.host v with
      | ok f' =>
          rw [absorbed] at next
          exact ⟨rfl, next⟩
      | error e =>
          rw [absorbed] at next
          exact next

/-- **Every turn preserves the invariant**, and what the last one ends with is sound.  The
scheduler's own faults are not among the ends: there is a task at any time, and calls are
expected. -/
theorem wellFormed_turn (safe : Safe context) {tasks : List Task} (h : WellFormed context tasks) :
    match Schedule.turn (program context) (some Frame.receive) tasks with
    | .going next => WellFormed context next
    | .ending result => SoundResult context result := by
  cases tasks with
  | nil => exact h.elim
  | cons t outer =>
      obtain ⟨fits, sound, awaited⟩ := h
      have action := sound_step safe sound
      have matched := matched_step context t.state
      -- The task runs the routine of its frame, so it takes the step of the frame.
      simp only [Schedule.turn, show t.routine = t.state.routine from fits]
      rw [show program context t.state.routine t.state = t.state.step context from rfl]
      cases hs : t.state.step context with
      | proceed next =>
          rw [hs] at action matched
          exact ⟨matched.symm, action, awaited⟩
      | call state inner =>
          rw [hs] at action matched
          exact ⟨matched.2, action.1, .cons matched.1.symm action.2 awaited⟩
      | fail e =>
          rw [hs] at action
          exact action
      | done v =>
          rw [hs] at action
          -- A result goes to the next task outside, which awaits it, or ends the run.
          cases awaited with
          | nil =>
              cases t.receiver.or (some Frame.receive) <;> exact action
          | @cons _ caller outer fits' awaits awaited =>
              obtain ⟨receive, common, taken⟩ := awaits.exists_receive action
              simp only [common, Schedule.handBack]
              cases received : receive caller.state v with
              | ok state =>
                  rw [received] at taken
                  exact ⟨fits'.trans taken.1.symm, taken.2, awaited⟩
              | error e =>
                  rw [received] at taken
                  exact taken

/-- A frame alone is well formed if it can take a step, since there is no caller that would have
to await its result. -/
theorem WellFormed.start {frame : Frame} (h : frame.Sound context.registry context.pool) :
    WellFormed context [task frame none] :=
  ⟨rfl, h, .nil⟩

/-- The invariant holds after a turn that goes on. -/
theorem WellFormed.turn (safe : Safe context) (tasks next : List Task)
    (h : WellFormed context tasks)
    (going : Schedule.turn (program context) (some Frame.receive) tasks =
      .going next) : WellFormed context next := by
  have := wellFormed_turn safe h
  rwa [going] at this

/-- So the invariant holds wherever turns lead. -/
theorem WellFormed.of_leads (safe : Safe context) {tasks next : List Task} {n : Nat}
    (h : WellFormed context tasks) (leads : Leads context n tasks next) :
    WellFormed context next :=
  leads.preserves (turn safe) h

/-- What a run ends with is sound: a sound value, or a proper error. -/
theorem WellFormed.sound_of_ends (safe : Safe context) {tasks : List Task} {n : Nat}
    {result : Except (Stop EvalError) Value} (h : WellFormed context tasks)
    (ends : Ends context n tasks result) : SoundResult context result := by
  obtain ⟨last, hlast, ending⟩ := ends.exists_last (turn safe) h
  have := wellFormed_turn safe hlast
  rwa [ending] at this

/-- An evaluation in a safe context has a sound value or a proper error, with any budget and
batches of any size. -/
theorem properly_evaluate (safe : Safe context) {root : Operand} (hroot : root.Within context.pool)
    (henv : Environment.Sound context.registry context.pool env) (scheduler : Schedule.Scheduler) :
    Properly (Value.Sound context.registry context.pool)
      (context.evaluate scheduler env root).1 := by
  have begun := Frame.properly_start safe.pool hroot henv
  cases started : Frame.start context.pool env root with
  | error e =>
      rw [started] at begun
      rw [Context.evaluate_of_start_eq_error scheduler started]
      exact begun
  | ok frame =>
      rw [started] at begun
      rcases Context.evaluate_of_start_eq_ok scheduler started with
        ⟨n, depth, result, -, ends, h⟩ | ⟨last, depth, -, h⟩
      · have sound : SoundResult context result :=
          WellFormed.sound_of_ends safe (.start begun) ends
        rw [h]
        cases result with
        | ok v => exact sound
        | error stop =>
            cases stop with
            | fault fault => exact sound.elim
            | raised e => exact sound
      · rw [h]
        trivial

/-- **What was parsed under the standard library is evaluated safely.**  For data of
truth values, literals and lists, every state that a run reaches makes sense, and
each evaluation has a sound value or an error that is neither an inconsistency nor
the complaint of an assertion. -/
theorem standard_evaluate_safe {tokens : List Token} {parser : Schedule.Scheduler}
    {parsed : Parse.Parsed}
    (parses : Registry.standard.parseWith parser tokens = .ok parsed)
    (host : Host) (hhost : ∀ key v, host.get? key = some v → v.IsData)
    (env : Environment) (henv : ∀ name v, env.get? name = some v → v.IsData) :
    (∀ budget frame state, Frame.start parsed.pool env parsed.root = .ok frame →
      Schedule.Reaches
        ⟨program ⟨host, .standard, parsed.pool⟩, budget, some Frame.receive⟩
        (.start [.new .operand frame]) state →
      WellFormed ⟨host, .standard, parsed.pool⟩ state.tasks) ∧
    ∀ scheduler, Properly (Value.Sound .standard parsed.pool)
      (Context.evaluate ⟨host, .standard, parsed.pool⟩ scheduler env parsed.root).1 := by
  obtain ⟨d, -, built⟩ := Parse.exists_build_of_parseWith _ _ parses
  have hroot := d.within_of_build built
  have safe : Safe ⟨host, .standard, parsed.pool⟩ :=
    ⟨Registry.safe_standard, Pool.sound_of_build Registry.safe_standard built,
      fun key v found => (hhost key v found).sound⟩
  have hsound : Environment.Sound .standard parsed.pool env :=
    fun name v found => (henv name v found).sound
  refine ⟨?_, properly_evaluate safe hroot hsound⟩
  intro budget frame state started reaches
  have begun := Frame.properly_start safe.pool hroot hsound
  rw [started] at begun
  obtain ⟨n, leads⟩ := reaches.leads
  rw [Schedule.State.start, Semantics.new_operand_eq_task started] at leads
  exact WellFormed.of_leads safe (.start begun) leads

/-- The tokens of `('x' => {v 'x'}) apply 'a'`, for a host without any data.  The body is
evaluated in a task of its own, which is called and hands its value back. -/
theorem evaluate_apply_safe :
    let tokens : List Token := [.bracket .openParen, .literal "x", .operator "=>" .infix2,
      .bracket .openBrace, .operator "v" .prefix1, .literal "x", .bracket .closeBrace,
      .bracket .closeParen, .operator "apply" .infix2, .literal "a"]
    let pool : Pool := ⟨#[⟨"v", [.literal "x"]⟩, ⟨"=>", [.literal "x", .block (.node 0)]⟩,
      ⟨"apply", [.node 1, .literal "a"]⟩]⟩
    Registry.standard.parse tokens 14 = .ok ⟨.node 2, pool⟩ ∧
      Properly (Value.Sound .standard pool)
        (Context.evaluate ⟨Record.toHost .empty, .standard, pool⟩ .standard .empty
          (.node 2)).1 := by
  intro tokens pool
  have parses : Registry.standard.parse tokens 14 = .ok ⟨.node 2, pool⟩ := by
    refine (Parse.parseWith_eq_ok_iff _ _ _ (by decide)).mpr ⟨.infix2 (.single (.paren
      (.infix2 (.single (.literal "x")) "=>" (.brace (.single (.prefix1 "v" (.literal "x")))))))
      "apply" (.literal "a"), rfl, ?_⟩
    rfl
  have nothing : ∀ name v, (Dictionary.empty : Environment).get? name = some v → v.IsData := by
    intro name v h
    cases h
  exact ⟨parses, (standard_evaluate_safe parses _ nothing _ nothing).2 .standard⟩

end Evaluate

end RuleEngine
