import RuleEngine.Proofs.Evaluate.Simulation

/-!
# The machine computes the semantics

`Simulation` shows that the machine takes the turns of every derivation.  Here
is the other direction: whenever a run of the machine ends, there is a
derivation for what it was about.

The induction is on the number of turns that are left.  Each judgment asks for
derivations of its parts; the first part gets one from the turns that are left
now, `Simulation` says where its derivation leads, and what follows has fewer
turns left.

## Main definitions

* `Derivable` - runs that end in so many turns have derivations.
* `seen?` - a result without the place of its error.

## Main statements

* `evaluate_of_evaluates`, `evaluate_exceeds` - an operand with a derivation is
  evaluated to its result if the budget allows the steps of the derivation, and
  exceeds any smaller budget.
* `derivable` - whatever a run was about when it ended has a derivation.
* `evaluate_agrees` - the machine and the semantics agree on all operands.

## Design notes

The semantics has no rule for a run that goes on forever, and none for one that the budget
cuts off.  So what a derivation says of budgets is said with the number of steps that it
counts, and operands without derivations are those which exceed every budget.

A derivation ends in a cause and a run in an error, which also shows where it was raised.
`seen?` forgets the place; the error's cause is what the two agree on.
-/

namespace RuleEngine

open Schedule (Scheduler Stop)

namespace Semantics

open Evaluate

variable {context : Context} {env : Environment}

/-! ### Ends have derivations -/

/-- All that ends in `N` turns has a derivation. -/
structure Derivable (context : Context) (N : Nat) : Prop where
  /-- The layer of a node. -/
  computes : ∀ {env i layer below receiver outer result},
    Layer.start context.pool env i = .ok layer →
    Ends context N (task (.operand ⟨env, layer :: below⟩) receiver :: outer) result →
    ∃ n r, Computes context env i n r
  /-- The operands behind some arguments. -/
  prepares : ∀ {env signature args operands below receiver outer result},
    Ends context N (task (.operand
      ⟨env, partialLayer env signature args operands :: below⟩) receiver :: outer) result →
    ∃ n r, Prepares context env operands n r
  /-- The frame of a demand. -/
  meets : ∀ {env demand frame receiver outer result},
    Demand.start context env demand = .ok frame →
    Ends context N (task frame receiver :: outer) result →
    ∃ n r, Meets context env demand n r
  /-- The frame of a traversal. -/
  gathers : ∀ {env callee how items current gathered receiver outer result},
    Ends context N
      (task (.traversal ⟨env, callee, how, items, current, gathered⟩) receiver :: outer) result →
    ∃ n r, Gathers context env callee how items n r

/-- A node that is not there has a derivation in no steps, for the fault that it is not. -/
theorem computes_of_start_eq_error {i : Nat} {e : EvalError}
    (h : Layer.start context.pool env i = .error e) :
    Computes context env i 0 (.error (.internal .danglingNode)) := by
  cases hi : context.pool.get? i with
  | none => exact .dangling hi
  | some node => simp [Layer.start, hi] at h

/-- An operand that cannot start has a derivation: it is a braced body, or a node that is not
there. -/
theorem evaluates_of_start_eq_error {x : Operand} {e : EvalError}
    (h : Frame.start context.pool env x = .error e) : ∃ n r, Evaluates context env x n r := by
  induction x with
  | literal text => exact ⟨_, _, .literal⟩
  | block x => exact ⟨_, _, .block⟩
  | skip x ih =>
      obtain ⟨n, r, hx⟩ := ih h
      exact ⟨n, r, .skip hx⟩
  | node i =>
      cases hs : Layer.start context.pool env i with
      | error e => exact ⟨_, _, .failure (computes_of_start_eq_error hs)⟩
      | ok layer => simp [Frame.start_node, hs] at h

/-- A demand that cannot start has a derivation as well, namely that of the operand which it
forces. -/
theorem meets_of_start_eq_error {demand : Demand} {e : EvalError}
    (h : demand.start context env = .error e) : ∃ n r, Meets context env demand n r := by
  cases demand with
  | force suspension =>
      obtain ⟨n, r, hx⟩ := evaluates_of_start_eq_error h
      exact ⟨n, r, .force hx⟩
  | traverse items callee how => cases h
  | keys => cases h

section Parts

variable {N : Nat} (shorter : ∀ m, m < N → Derivable context m)
variable {below : List Layer} {outer : List Task} {result : Except (Stop EvalError) Value}
variable {receiver : Option (Frame → Value → Except EvalError Frame)}

include shorter

/-- The operands behind some arguments, by recursion on these operands.  One that is ready takes
no turns.  One that is pending is begun by a turn, so what its node comes to is known by
induction, and the turns that are left after it are fewer. -/
theorem prepares_of_ends {signature : Signature} {args : List Arg} {operands : List Operand}
    (ends : Ends context N (task (.operand
      ⟨env, partialLayer env signature args operands :: below⟩) receiver :: outer) result) :
    ∃ n r, Prepares context env operands n r := by
  induction operands generalizing args with
  | nil => exact ⟨_, _, .nil⟩
  | cons x rest ih =>
      cases x with
      | literal text =>
          rw [partialLayer_ready rfl] at ends
          obtain ⟨n, r, h⟩ := ih ends
          exact ⟨_, _, .literal h⟩
      | block x =>
          rw [partialLayer_ready rfl] at ends
          obtain ⟨n, r, h⟩ := ih ends
          exact ⟨_, _, .block h⟩
      | skip x =>
          rw [partialLayer_ready rfl] at ends
          obtain ⟨n, r, h⟩ := ih ends
          exact ⟨_, _, .skip h⟩
      | node i =>
          cases hs : Layer.start context.pool env i with
          | error e => exact ⟨_, _, .failure (computes_of_start_eq_error hs)⟩
          | ok layer =>
              have push := step_push signature args rest below hs
              obtain ⟨k, rfl, pushed⟩ := ends.after (turn_proceed push)
              -- The derivation of the node says where the run is once it has its value.
              obtain ⟨n, r, hi⟩ := (shorter k (by omega)).computes hs pushed
              cases r with
              | error cause => exact ⟨_, _, .failure hi⟩
              | ok v =>
                  have value := delivers_of_computes hi hs
                    (partialLayer env signature args (.node i :: rest) :: below) receiver outer
                  have fill := step_fill signature args rest below context env i v
                  obtain ⟨l, rfl, filled⟩ := pushed.after (value.trans (turn_proceed fill))
                  obtain ⟨m, r, hrest⟩ := (shorter l (by omega)).prepares filled
                  exact ⟨_, _, .node hi hrest⟩

/-- The layer of a node: its operands come first, and if they have arguments, the turn that runs
the operation leaves fewer turns for what the body demands. -/
theorem computes_of_ends {i : Nat} {layer : Layer}
    (hs : Layer.start context.pool env i = .ok layer)
    (ends : Ends context N (task (.operand ⟨env, layer :: below⟩) receiver :: outer) result) :
    ∃ n r, Computes context env i n r := by
  cases hi : context.pool.get? i with
  | none => exact ⟨_, _, .dangling hi⟩
  | some node =>
      obtain rfl := Except.ok.inj ((start_eq_ok hi).symm.trans hs)
      -- No turn is taken for the layer itself, so all of them are left for the operands.
      obtain ⟨n, r, h⟩ := prepares_of_ends shorter ends
      cases r with
      | error cause => exact ⟨_, _, .operand hi h⟩
      | ok args =>
          obtain ⟨k, rfl, prepared⟩ :=
            ends.after (delivers_operands h node.signature [] below receiver outer)
          cases hd : context.registry.find? node.signature with
          | none => exact ⟨_, _, .unregistered hi h hd⟩
          | some d =>
              cases hcall : context.registry.call (scopeIn context env) d.body args with
              | error cause => exact ⟨_, _, .body hi h hd hcall⟩
              | ok outcome =>
                  cases outcome with
                  | value v => exact ⟨_, _, .value hi h hd hcall⟩
                  | demand demand =>
                      cases hs : demand.start context env with
                      | error e =>
                          obtain ⟨m, r, hm⟩ := meets_of_start_eq_error hs
                          exact ⟨_, _, .demand hi h hd hcall hm⟩
                      | ok inner =>
                          have step := step_apply node.signature args below context env
                          simp only [OperandFrame.run, hd, hcall, hs] at step
                          rw [new_eq_task hs] at step
                          obtain ⟨l, rfl, called⟩ := prepared.after (turn_call step)
                          obtain ⟨m, r, hm⟩ := (shorter l (by omega)).meets hs called
                          exact ⟨_, _, .demand hi h hd hcall hm⟩

/-- An operand on its own, which begins in a frame with a single layer or a value. -/
theorem evaluates_of_ends {x : Operand} {frame : Frame}
    (hs : Frame.start context.pool env x = .ok frame)
    (ends : Ends context N (task frame receiver :: outer) result) :
    ∃ n r, Evaluates context env x n r := by
  induction x with
  | literal text => exact ⟨_, _, .literal⟩
  | block x => exact ⟨_, _, .block⟩
  | skip x ih =>
      obtain ⟨n, r, h⟩ := ih hs
      exact ⟨n, r, .skip h⟩
  | node i =>
      cases hl : Layer.start context.pool env i with
      | error e => exact ⟨_, _, .failure (computes_of_start_eq_error hl)⟩
      | ok layer =>
          simp only [Frame.start_node, hl, Except.ok.injEq] at hs
          obtain rfl := hs
          obtain ⟨n, r, h⟩ := computes_of_ends shorter hl ends
          cases r with
          | ok v => exact ⟨_, _, .value h⟩
          | error cause => exact ⟨_, _, .failure h⟩

/-- The element in front: it fails or contributes at once, or else a task is called, and the turns
that are left then are fewer. -/
theorem applies_of_ends {callee : Callee} {how : Traversal} {item : Value}
    {items gathered : List Value} {current : Option Value}
    (ends : Ends context N
      (task (.traversal ⟨env, callee, how, item :: items, current, gathered⟩) receiver :: outer)
      result) :
    ∃ n r, Applies context env callee how item n r := by
  cases happly : context.registry.apply (scopeIn context env) callee [item] with
  | error cause => exact ⟨_, _, .failure happly⟩
  | ok outcome =>
      cases outcome with
      | value v => exact ⟨_, _, .value happly⟩
      | demand demand =>
          cases hs : demand.start context env with
          | error e =>
              obtain ⟨n, r, hm⟩ := meets_of_start_eq_error hs
              exact ⟨_, _, .demand happly hm⟩
          | ok inner =>
              have call := step_element_call how items current gathered happly hs
              obtain ⟨k, rfl, called⟩ := ends.after (turn_call call)
              obtain ⟨n, r, hm⟩ := (shorter k (by omega)).meets hs called
              exact ⟨_, _, .demand happly hm⟩

/-- All elements of a list, by recursion on the list: the first one takes a turn at least, so
fewer are left for the others. -/
theorem gathers_of_ends {callee : Callee} {how : Traversal} {items gathered : List Value}
    {current : Option Value}
    (ends : Ends context N
      (task (.traversal ⟨env, callee, how, items, current, gathered⟩) receiver :: outer) result) :
    ∃ n r, Gathers context env callee how items n r := by
  cases items with
  | nil => exact ⟨_, _, .nil⟩
  | cons item items =>
      obtain ⟨n, r, h⟩ := applies_of_ends shorter ends
      cases r with
      | error cause => exact ⟨_, _, .failure h⟩
      | ok v =>
          cases hc : how.combine context.host item v with
          | error cause => exact ⟨_, _, .refused h hc⟩
          | ok vs =>
              have element := delivers_element h items current gathered receiver outer
              simp only [contribution, hc] at element
              obtain ⟨k, rfl, rest⟩ := ends.after element
              -- Fewer turns are left only because each element takes one.
              have := h.pos
              obtain ⟨m, r, hrest⟩ := (shorter k (by omega)).gathers rest
              exact ⟨_, _, .cons h hc hrest⟩

end Parts

/-- **Ends have derivations**, however many turns they are away.  All judgments are treated at
once, by induction on the number of turns, since each of them leads to others. -/
theorem derivable (context : Context) (N : Nat) : Derivable context N := by
  induction N using Nat.strongRecOn with
  | ind N shorter =>
      refine ⟨computes_of_ends shorter, prepares_of_ends shorter, ?_, gathers_of_ends shorter⟩
      intro env demand frame receiver outer result hs ends
      cases demand with
      | force suspension =>
          obtain ⟨n, r, h⟩ := evaluates_of_ends shorter hs ends
          exact ⟨n, r, .force h⟩
      | traverse items callee how =>
          obtain rfl := Except.ok.inj hs
          obtain ⟨n, r, h⟩ := gathers_of_ends shorter ends
          exact ⟨_, _, .traverse h⟩
      | keys => exact ⟨_, _, .keys⟩

/-! ### Evaluation -/

/-- The run of a task that comes to a result ends with it: a task alone has no caller to hand its
value to. -/
theorem Resolves.ends {frame : Frame} {n : Nat} {r : Except EvalCause Value}
    (h : Resolves context frame n r) :
    ∃ result, Ends context n [task frame none] result ∧
      match r with
      | .ok v => result = .ok v
      | .error cause => ∃ e, e.cause? = some cause ∧ result = .error (.raised e) := by
  have life := h none []
  cases r with
  | ok v =>
      obtain ⟨k, last, rfl, done, leads⟩ := life
      have ending : Ends context 1 [task last none] (.ok v) :=
        .last (by rw [turn_done done]; rfl)
      exact ⟨.ok v, leads.ends ending, rfl⟩
  | error cause =>
      obtain ⟨e, he, ends⟩ := life
      exact ⟨_, ends, e, he, rfl⟩

end Semantics

/-- What is seen of a result if the place of its error is left out.  Nothing is
seen of an evaluation that has used up its budget. -/
def seen? : Except EvalError Value → Option (Except EvalCause Value)
  | .ok v => some (.ok v)
  | .error e => e.cause?.map .error

/-- A value is all that is seen of an evaluation that comes to one. -/
theorem seen?_eq_ok_iff {result : Except EvalError Value} {v : Value} :
    seen? result = some (.ok v) ↔ result = .ok v := by
  cases result with
  | ok w => simp [seen?]
  | error e => cases h : e.cause? <;> simp [seen?, h]

/-- What is seen of an internal fault is the fault itself, as it has no place. -/
theorem eq_internal_of_seen?_eq {result : Except EvalError Value} {fault : InternalFault}
    (h : seen? result = some (.error (.internal fault))) : result = .error (.internal fault) := by
  cases result with
  | ok v => cases h
  | error e =>
      cases e <;> simp [seen?, EvalError.cause?] at h
      rw [h]

namespace Context

open Semantics

variable {context : Context} {env : Environment} {root : Operand} {n : Nat}
variable {r : Except EvalCause Value}

/-- An evaluation that cannot start takes no steps and calls no batch. -/
theorem evaluate_of_start_eq_error {e : EvalError} (scheduler : Scheduler)
    (hs : Evaluate.Frame.start context.pool env root = .error e) :
    context.evaluate scheduler env root = (.error e, ⟨0, 0⟩) := by
  simp [evaluate, hs]

/-- An evaluation that starts is a run that ends within the budget, or exceeds
it. -/
theorem evaluate_of_start_eq_ok {frame : Evaluate.Frame} (scheduler : Scheduler)
    (hs : Evaluate.Frame.start context.pool env root = .ok frame) :
    (∃ n depth result, n ≤ scheduler.budget ∧ Ends context n [task frame none] result ∧
      context.evaluate scheduler env root =
        (result.mapError EvalError.ofStop, ⟨n, depth⟩)) ∨
    (∃ last depth, Leads context scheduler.budget [task frame none] last ∧
      context.evaluate scheduler env root =
        (.error (.budgetExceeded scheduler.budget), ⟨scheduler.budget, depth⟩)) := by
  rcases scheduler.ends_of_runStack (Evaluate.program context)
      Evaluate.Frame.receive (List.cons_ne_nil (task frame none) []) with
    ⟨n, depth, result, within, ends, h⟩ | ⟨last, depth, leads, h⟩
  · refine .inl ⟨n, depth, result, within, ends, ?_⟩
    simp only [evaluate, hs, new_operand_eq_task hs, h]
  · refine .inr ⟨last, depth, leads, ?_⟩
    simp only [evaluate, hs, new_operand_eq_task hs, h]
    rfl

/-- An operand with a derivation is evaluated to its result, in as many steps as the derivation
counts.  The batches into which the scheduler divides the run do not matter. -/
theorem evaluate_of_evaluates (h : Evaluates context env root n r) {scheduler : Scheduler}
    (within : n ≤ scheduler.budget) :
    seen? (context.evaluate scheduler env root).1 = some r ∧
      (context.evaluate scheduler env root).2.steps = n := by
  have life := resolves_start h
  cases hs : Evaluate.Frame.start context.pool env root with
  | error e =>
      rw [hs] at life
      obtain ⟨rfl, cause, he, rfl⟩ := life
      rw [evaluate_of_start_eq_error scheduler hs]
      exact ⟨by simp [seen?, he], rfl⟩
  | ok frame =>
      rw [hs] at life
      obtain ⟨result, ends, shown⟩ := Resolves.ends life
      rcases evaluate_of_start_eq_ok scheduler hs with
        ⟨m, depth, result', -, ends', h'⟩ | ⟨last, depth, leads, h'⟩
      · obtain ⟨rfl, rfl⟩ := ends.unique ends'
        rw [h']
        refine ⟨?_, rfl⟩
        cases r with
        | ok v =>
            obtain rfl := shown
            rfl
        | error cause =>
            obtain ⟨e, he, rfl⟩ := shown
            show e.cause?.map _ = _
            rw [he]
            rfl
      · -- The run would have to end after the budget was used up.
        obtain ⟨k, rfl, rest⟩ := ends.after leads
        have := rest.pos
        omega

/-- An operand with a derivation exceeds every budget below the steps that the derivation counts,
and all of that budget is used up. -/
theorem evaluate_exceeds (h : Evaluates context env root n r) {scheduler : Scheduler}
    (short : scheduler.budget < n) :
    (context.evaluate scheduler env root).1 = .error (.budgetExceeded scheduler.budget) ∧
      (context.evaluate scheduler env root).2.steps = scheduler.budget := by
  have life := resolves_start h
  cases hs : Evaluate.Frame.start context.pool env root with
  | error e =>
      rw [hs] at life
      have := life.1
      omega
  | ok frame =>
      rw [hs] at life
      obtain ⟨result, ends, -⟩ := Resolves.ends life
      rcases evaluate_of_start_eq_ok scheduler hs with
        ⟨m, depth, result', within, ends', -⟩ | ⟨last, depth, -, h'⟩
      · have := (ends.unique ends').1
        omega
      · exact ⟨by rw [h'], by rw [h']⟩

/-- An evaluation that stays within its budget has a derivation, of no more steps than the budget
allows. -/
theorem evaluates_of_evaluate {scheduler : Scheduler}
    (h : (context.evaluate scheduler env root).1 ≠ .error (.budgetExceeded scheduler.budget)) :
    ∃ n r, n ≤ scheduler.budget ∧ Evaluates context env root n r := by
  have derivation : ∃ n r, Evaluates context env root n r := by
    cases hs : Evaluate.Frame.start context.pool env root with
    | error e => exact evaluates_of_start_eq_error hs
    | ok frame =>
        rcases evaluate_of_start_eq_ok scheduler hs with
          ⟨m, depth, result, -, ends, -⟩ | ⟨last, depth, -, h'⟩
        · exact evaluates_of_ends (fun m _ => derivable context m) hs ends
        · exact absurd (by rw [h']) h
  obtain ⟨n, r, hr⟩ := derivation
  refine ⟨n, r, Nat.le_of_not_lt ?_, hr⟩
  exact fun short => h (evaluate_exceeds hr short).1

/-- **The machine computes the semantics.**  If an operand has a derivation, the
machine comes to its result, in exactly as many steps as the derivation counts
and with no smaller budget.  If the machine comes to anything but the end of its
budget, this has a derivation.  Where there is none, every budget is exceeded. -/
theorem evaluate_agrees (context : Context) (env : Environment) (root : Operand) :
    (∀ n r, Evaluates context env root n r → ∀ scheduler : Scheduler,
      (n ≤ scheduler.budget →
        seen? (context.evaluate scheduler env root).1 = some r ∧
          (context.evaluate scheduler env root).2.steps = n) ∧
      (scheduler.budget < n →
        (context.evaluate scheduler env root).1 =
          .error (.budgetExceeded scheduler.budget))) ∧
    (∀ scheduler : Scheduler,
      (context.evaluate scheduler env root).1 ≠ .error (.budgetExceeded scheduler.budget) →
      ∃ r, seen? (context.evaluate scheduler env root).1 = some r ∧
        Evaluates context env root (context.evaluate scheduler env root).2.steps r) := by
  refine ⟨?_, ?_⟩
  · intro n r h scheduler
    exact ⟨evaluate_of_evaluates h, fun short => (evaluate_exceeds h short).1⟩
  · intro scheduler h
    obtain ⟨n, r, within, hr⟩ := evaluates_of_evaluate h
    obtain ⟨seen, steps⟩ := evaluate_of_evaluates hr within
    exact ⟨r, seen, steps.symm ▸ hr⟩

end Context

end RuleEngine
