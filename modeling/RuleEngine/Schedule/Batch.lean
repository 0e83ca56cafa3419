import RuleEngine.Schedule.Advance

/-!
# Nested batches

Steps are not taken in one loop but in nested batches.  A batch of level `0`
is `batch` steps, and a batch of level `l + 1` is `batch` batches of level `l`.
A run goes through whole batches of level `0`, `1`, `2`, … until it is over.

The nesting of batches is the native recursion of the run.  `n` steps need
about `log n` levels, so a long run stays shallow; `State.maxDepth` records how
deep it became.

## Main definitions

* `repeatUnit` - up to a number of units, ending early with the run.
* `runBatch` - one batch of a given level.
* `runLevels` - batches of rising level until the run is over.

## Main statements

* `steps_of_runBatch` - a batch that leaves the run going has taken at least one
  step, and no more than the budget.  So `runLevels` terminates: the part of the
  budget that is left is its measure.

## Design notes

**Units all the way.**  A batch of any level goes through units of the level below, and
stops when a unit has ended the run.  One function serves for all levels, with the unit
as a parameter, so what is shown of it by induction on the number of units is shown of
all batches.

**The depth is measured on entry.**  A batch notes its level when it is entered, and the
largest one is kept.  A run that ends in a batch of level `l` has therefore been nested
that deep.
-/

namespace RuleEngine.Schedule

variable {κ σ τ ε : Type}

/-- A batch is entered at nesting `depth`. -/
def State.enter (s : State κ σ τ ε) (depth : Nat) : State κ σ τ ε :=
  { s with maxDepth := max s.maxDepth depth }

/-- Up to `count` units, one after another, while the run is going. -/
def repeatUnit (unit : State κ σ τ ε → Phase κ σ τ ε) : Nat → State κ σ τ ε → Phase κ σ τ ε
  | 0, s => .running s
  | count + 1, s =>
    match unit s with
    | .running next => repeatUnit unit count next
    | .ended result stats => .ended result stats

/-- One batch of level `level`, entered inside `depth` other batches. -/
def runBatch (rules : Rules κ σ τ ε) (batch : Nat) :
    (level depth : Nat) → State κ σ τ ε → Phase κ σ τ ε
  | 0, depth, s => repeatUnit (advance rules) batch (s.enter (depth + 1))
  | level + 1, depth, s =>
    repeatUnit (runBatch rules batch level (depth + 1)) batch (s.enter (depth + 1))

/-- A unit of work that, while it leaves the run going, takes steps within the
budget. -/
def Advances (budget : Nat) (unit : State κ σ τ ε → Phase κ σ τ ε) : Prop :=
  ∀ s next, unit s = .running next → s.steps < next.steps ∧ next.steps ≤ budget

theorem advances_advance (rules : Rules κ σ τ ε) : Advances rules.budget (advance rules) := by
  intro s next h
  have := steps_of_advance h
  omega

theorem Advances.repeatUnit {budget : Nat} {unit : State κ σ τ ε → Phase κ σ τ ε}
    (h : Advances budget unit) (count : Nat) :
    Advances budget (repeatUnit unit (count + 1)) := by
  induction count with
  | zero =>
    intro s next hs
    simp only [Schedule.repeatUnit] at hs
    split at hs
    · simp only [Phase.running.injEq] at hs
      subst hs
      exact h _ _ (by assumption)
    · simp at hs
  | succ count ih =>
    intro s next hs
    rw [Schedule.repeatUnit] at hs
    split at hs
    · rename_i middle hm
      have first := h _ _ hm
      have later := ih _ _ hs
      omega
    · simp at hs

theorem advances_runBatch (rules : Rules κ σ τ ε) {batch : Nat} (hb : 0 < batch)
    (level depth : Nat) : Advances rules.budget (runBatch rules batch level depth) := by
  obtain ⟨count, rfl⟩ : ∃ count, batch = count + 1 := ⟨batch - 1, by omega⟩
  induction level generalizing depth with
  | zero =>
    intro s next h
    exact (advances_advance rules).repeatUnit count (s.enter (depth + 1)) next h
  | succ level ih =>
    intro s next h
    exact (ih (depth + 1)).repeatUnit count (s.enter (depth + 1)) next h

/-- A batch that leaves the run going has taken a step, within the budget. -/
theorem steps_of_runBatch {rules : Rules κ σ τ ε} {batch : Nat} (hb : 0 < batch)
    {level depth : Nat} {s next : State κ σ τ ε}
    (h : runBatch rules batch level depth s = .running next) :
    s.steps < next.steps ∧ next.steps ≤ rules.budget :=
  advances_runBatch rules hb level depth s next h

/-- Batches of level `level`, `level + 1`, … until the run is over. -/
def runLevels (rules : Rules κ σ τ ε) (batch : Nat) (hb : 0 < batch) (level : Nat)
    (s : State κ σ τ ε) : Except (Stop ε) τ × Stats :=
  -- A batch that leaves the run going has used up some of the budget.
  match h : runBatch rules batch level 0 s with
  | .ended result stats => (result, stats)
  | .running next => runLevels rules batch hb (level + 1) next
termination_by rules.budget - s.steps
decreasing_by
  have := steps_of_runBatch hb h
  omega

end RuleEngine.Schedule
