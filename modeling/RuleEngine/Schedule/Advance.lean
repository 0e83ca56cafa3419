import RuleEngine.Schedule.Task

/-!
# The next step of a run

A run holds a stack of tasks of which only the innermost one moves.  To advance
the run is to take one step of that task with all that follows from it: a called
task is put on top, and the result of a finished one enters the state of the
task below it.

## Main definitions

* `Rules` - what stays the same during a run: the program, the budget, and the
  common way in which results enter a caller's state.
* `State` - the tasks, innermost first, and the counters.
* `Phase` - a run that is still going, or one that has ended.
* `advance` - one step.

## Main statements

* `steps_of_advance` - if the run is still going, exactly one step has been
  counted, and the budget allowed it.

## Design notes

**The budget is asked first.**  A run that has no step left is over before its innermost
task is looked at.  So a task that would have ended with the next step does not, and the
counter of steps never exceeds the budget.

**Called tasks come on top.**  The caller stays below with the state that it has after
the call, and is not looked at before the called task is over.  What it makes of the
result is up to the receiver that was given with the call, or to the common one.
-/

namespace RuleEngine.Schedule

variable {κ σ τ ε : Type}

/-- What stays the same during a run. -/
structure Rules (κ σ τ ε : Type) where
  /-- What the tasks do. -/
  program : Program κ σ τ ε
  /-- How many steps may be taken. -/
  budget : Nat
  /-- How a result enters the state of the task that called for it, unless the
  finished task has a receiver of its own.  A run without it consists of a
  single task, which may not call another one. -/
  receive? : Option (σ → τ → Except ε σ)

/-- The counters of a run. -/
structure Stats where
  /-- Steps taken. -/
  steps : Nat
  /-- Deepest nesting of batches that was entered. -/
  maxDepth : Nat
  deriving DecidableEq, Repr

/-- A run that is still going. -/
structure State (κ σ τ ε : Type) where
  /-- The tasks, innermost first. -/
  tasks : List (Task κ σ τ ε)
  /-- Steps taken so far. -/
  steps : Nat
  /-- Deepest nesting of batches entered so far. -/
  maxDepth : Nat

/-- A run after some steps. -/
inductive Phase (κ σ τ ε : Type)
  /-- There is more to do. -/
  | running (state : State κ σ τ ε)
  /-- The run is over, with these counters. -/
  | ended (result : Except (Stop ε) τ) (stats : Stats)

namespace State

/-- Nothing has been done yet. -/
def start (tasks : List (Task κ σ τ ε)) : State κ σ τ ε :=
  ⟨tasks, 0, 0⟩

/-- The counters reached so far. -/
def stats (s : State κ σ τ ε) : Stats :=
  ⟨s.steps, s.maxDepth⟩

/-- The run ends without a result. -/
def stop (s : State κ σ τ ε) (why : Stop ε) : Phase κ σ τ ε :=
  .ended (.error why) s.stats

/-- The run goes on with other tasks. -/
def go (s : State κ σ τ ε) (tasks : List (Task κ σ τ ε)) : Phase κ σ τ ε :=
  .running { s with tasks }

/-- The innermost task, with `outer` below it, is done with `result`: without a
caller the run is over, otherwise the result enters the caller's state. -/
def deliver (s : State κ σ τ ε) (receive? : Option (σ → τ → Except ε σ))
    (outer : List (Task κ σ τ ε)) (result : τ) : Phase κ σ τ ε :=
  match outer with
  | [] => .ended (.ok result) s.stats
  | caller :: rest =>
    match receive? with
    | none => s.stop (.fault .unexpectedCall)
    | some receive =>
      match receive caller.state result with
      | .error e => s.stop (.raised e)
      | .ok state => s.go ({ caller with state } :: rest)

end State

/-- One step of the innermost task, within the budget. -/
def advance (rules : Rules κ σ τ ε) (s : State κ σ τ ε) : Phase κ σ τ ε :=
  if rules.budget ≤ s.steps then
    s.stop (.fault (.budgetExceeded rules.budget))
  else
    match s with
    | ⟨tasks, steps, maxDepth⟩ =>
      -- The step counts whatever comes of it, also if it fails.
      let counted : State κ σ τ ε := ⟨[], steps + 1, maxDepth⟩
      match tasks with
      | [] => counted.stop (.fault .noTask)
      | ⟨routine, state, receiver⟩ :: outer =>
        match rules.program routine state with
        | .proceed state => counted.go (⟨routine, state, receiver⟩ :: outer)
        | .call state inner =>
          match rules.receive? with
          | none => counted.stop (.fault .unexpectedCall)
          | some _ => counted.go (inner :: ⟨routine, state, receiver⟩ :: outer)
        | .done result => counted.deliver (receiver.or rules.receive?) outer result
        | .fail e => counted.stop (.raised e)

theorem State.steps_of_deliver {s next : State κ σ τ ε}
    {receive? : Option (σ → τ → Except ε σ)} {outer : List (Task κ σ τ ε)} {result : τ}
    (h : s.deliver receive? outer result = .running next) : next.steps = s.steps := by
  unfold State.deliver at h
  split at h
  · simp at h
  · split at h
    · simp [State.stop] at h
    · split at h
      · simp [State.stop] at h
      · simp only [State.go, Phase.running.injEq] at h
        rw [← h]

/-- If the run is still going, one step has been counted within the budget. -/
theorem steps_of_advance {rules : Rules κ σ τ ε} {s next : State κ σ τ ε}
    (h : advance rules s = .running next) :
    next.steps = s.steps + 1 ∧ next.steps ≤ rules.budget := by
  unfold advance at h
  split at h
  · simp [State.stop] at h
  · rename_i within
    have counted : next.steps = s.steps + 1 := by
      revert h
      dsimp only
      split
      · simp [State.stop]
      · split
        · rintro h
          simp only [State.go, Phase.running.injEq] at h
          rw [← h]
        · split
          · simp [State.stop]
          · rintro h
            simp only [State.go, Phase.running.injEq] at h
            rw [← h]
        · exact fun h => State.steps_of_deliver h
        · simp [State.stop]
    omega

end RuleEngine.Schedule
