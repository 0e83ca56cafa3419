import Mathlib.Algebra.Order.BigOperators.Group.Finset
import Mathlib.Order.Bounds.Basic
import RuleEngine.Proofs.Schedule.Nesting

/-!
# How deep batches are nested

A batch of level `l` that does not end the run takes exactly `batch ^ (l + 1)`
steps, and it gets to nesting `l + 1` with its first step already.  The batches
of levels `0`, `1`, …, `d - 1` together therefore have room for
`batch + batch ^ 2 + … + batch ^ d` steps, and a run gets to nesting `d` when the
levels before have no more room for its next one.

The step that counts last is the one that was tried last.  It is a step that was
taken, unless the budget did not allow it.

## Main definitions

* `attempts` - the steps that a run has tried to take.
* `room` - the steps in all batches below some level.
* `Filled` - a run of which these steps have been taken.
* `Calls` - the batches that are called in a run, each inside of so many others.
* `ExactDepth` - the nesting of a run is what its attempts make it.

## Main statements

* `measured_advance`, `measured_repeatUnit`, `measured_runBatch` - what a batch
  takes and how deep it gets, whether it ends the run or not.
* `Filled.runBatch`, `Filled.runLevels` - hence what a run of rising levels takes, and
  where it ends.
* `Calls.runBatches` - a batch inside of others is part of one of the run's levels.
* `depth_exact` - the nesting is exactly logarithmic.
-/

namespace RuleEngine.Schedule

variable {κ σ τ ε : Type} {rules : Rules κ σ τ ε} {batch : Nat}

/-! ### Attempts -/

/-- The steps that a run has tried to take: those that it has taken, and one more if
its budget did not allow that. -/
def attempts (run : Except (Stop ε) τ × Stats) : Nat :=
  match run.1 with
  | .error (.fault (.budgetExceeded _)) => run.2.steps + 1
  | _ => run.2.steps

/-- A run that does not exceed its budget has tried to take the steps that it took, and no more. -/
theorem attempts_of_ne {result : Except (Stop ε) τ} {stats : Stats}
    (regular : ∀ b, result ≠ .error (.fault (.budgetExceeded b))) :
    attempts (result, stats) = stats.steps := by
  unfold attempts
  split
  · rename_i b same
    exact absurd same (regular b)
  · rfl

/-! ### Room -/

/-- The steps of one batch of each level below `level`. -/
def room (batch level : Nat) : Nat :=
  ∑ i ∈ Finset.range level, batch ^ (i + 1)

/-- One more level has room for as many steps as a batch of this level has. -/
theorem room_succ (batch level : Nat) :
    room batch (level + 1) = room batch level + batch ^ (level + 1) :=
  Finset.sum_range_succ _ _

theorem room_mono {level level' : Nat} (h : level ≤ level') :
    room batch level ≤ room batch level' :=
  Finset.sum_le_sum_of_subset (Finset.range_mono h)

/-- The last level alone has this much room, so a run that gets beyond it has taken at least so
many steps. -/
theorem pow_le_of_room_lt {level n : Nat} (h : room batch level < n) : batch ^ level ≤ n := by
  cases level with
  | zero => exact h
  | succ level =>
      rw [room_succ] at h
      omega

/-! ### One batch -/

/-- What comes of a state by `size` steps, if they do not end the run, and at nesting
`top`. -/
def Phase.Measured (s : State κ σ τ ε) (size top : Nat) : Phase κ σ τ ε → Prop
  | running next => next.steps = s.steps + size ∧ next.maxDepth = max s.maxDepth top
  | ended result stats => s.steps < attempts (result, stats) ∧
      attempts (result, stats) ≤ s.steps + size ∧ stats.maxDepth = max s.maxDepth top

/-- A single step is one attempt, and it is nested in nothing. -/
theorem measured_advance (rules : Rules κ σ τ ε) (s : State κ σ τ ε) :
    (advance rules s).Measured s 1 0 := by
  rw [advance_eq_turn]
  split
  · -- The attempt fails, but it counts.
    exact ⟨Nat.lt_succ_self _, Nat.le_refl _, (Nat.max_zero _).symm⟩
  · cases next : turn rules.program rules.receive? s.tasks with
    | going tasks => exact ⟨rfl, (Nat.max_zero _).symm⟩
    | ending result =>
        have regular : ∀ b, result ≠ .error (.fault (.budgetExceeded b)) := by
          rintro b rfl
          exact turn_ne_budgetExceeded b next
        have counted : attempts (result, ⟨s.steps + 1, s.maxDepth⟩) = s.steps + 1 :=
          attempts_of_ne regular
        exact ⟨by omega, by omega, (Nat.max_zero _).symm⟩

/-- Some units take the steps of each of them, as long as the run goes on.  The deepest of them is
as deep as all. -/
theorem measured_repeatUnit {unit : State κ σ τ ε → Phase κ σ τ ε} {size top : Nat}
    (h : ∀ s, (unit s).Measured s size top) (count : Nat) (s : State κ σ τ ε) :
    (repeatUnit unit (count + 1) s).Measured s ((count + 1) * size) top := by
  induction count generalizing s with
  | zero =>
      have first := h s
      rw [Nat.zero_add, Nat.one_mul, repeatUnit]
      cases hs : unit s with
      | running next | ended result stats => rwa [hs] at first
  | succ count ih =>
      have first := h s
      rw [repeatUnit, Nat.succ_mul]
      cases hs : unit s with
      | running next =>
          rw [hs] at first
          obtain ⟨steps, depth⟩ := first
          -- The rest of the units starts where the first one has stopped.
          have later := ih next
          dsimp only
          cases last : repeatUnit unit (count + 1) next with
          | running final =>
              rw [last] at later
              obtain ⟨steps', depth'⟩ := later
              exact ⟨by omega, by omega⟩
          | ended result stats =>
              rw [last] at later
              obtain ⟨more, within, depth'⟩ := later
              exact ⟨by omega, by omega, by omega⟩
      | ended result stats =>
          rw [hs] at first
          obtain ⟨more, within, depth⟩ := first
          exact ⟨more, by omega, depth⟩

/-- To enter a batch is no step, but it is nesting. -/
theorem Phase.Measured.of_enter {s : State κ σ τ ε} {size depth top : Nat} {p : Phase κ σ τ ε}
    (h : p.Measured (s.enter depth) size top) : p.Measured s size (max depth top) := by
  have nested := Nat.max_assoc s.maxDepth depth top
  cases p with
  | running next => exact ⟨h.1, h.2.trans nested⟩
  | ended result stats => exact ⟨h.1, h.2.1, h.2.2.trans nested⟩

/-- **What a batch takes and how deep it gets**, at a level and inside of so many others.  A batch
that leaves the run going has used all of its steps, which is why the next level is needed. -/
theorem measured_runBatch (rules : Rules κ σ τ ε) (hb : 0 < batch) (level depth : Nat)
    (s : State κ σ τ ε) : (runBatch rules batch level depth s).Measured s
      (batch ^ (level + 1)) (depth + level + 1) := by
  obtain ⟨count, rfl⟩ : ∃ count, batch = count + 1 := ⟨batch - 1, by omega⟩
  induction level generalizing depth s with
  | zero =>
      have units :=
        (measured_repeatUnit (measured_advance rules) count (s.enter (depth + 1))).of_enter
      rw [Nat.mul_one, Nat.max_zero] at units
      rwa [Nat.zero_add, Nat.pow_one]
  | succ level ih =>
      have units := (measured_repeatUnit (ih (depth + 1)) count (s.enter (depth + 1))).of_enter
      rw [show max (depth + 1) (depth + 1 + level + 1) = depth + (level + 1) + 1 by omega] at units
      rwa [Nat.pow_succ, Nat.mul_comm]

/-! ### Batches of rising level -/

/-- A run before the batch of level `level`: the lower levels have taken all the steps
that they have room for, and are what it is nested in at most. -/
structure Filled (batch level : Nat) (s : State κ σ τ ε) : Prop where
  /-- The steps of the lower levels. -/
  steps : s.steps = room batch level
  /-- The nesting that they got to. -/
  depth : s.maxDepth = level

/-- Before the first batch nothing is used and nothing is nested. -/
theorem filled_start (batch : Nat) (tasks : List (Task κ σ τ ε)) :
    Filled batch 0 (.start tasks) := ⟨rfl, rfl⟩

theorem Filled.runBatch {level : Nat} {s next : State κ σ τ ε} (h : Filled batch level s)
    (hb : 0 < batch) (going : runBatch rules batch level 0 s = .running next) :
    Filled batch (level + 1) next := by
  have measured := measured_runBatch rules hb level 0 s
  rw [going] at measured
  obtain ⟨steps, depth⟩ := measured
  rw [h.steps] at steps
  rw [h.depth] at depth
  exact ⟨steps.trans (room_succ batch level).symm, by omega⟩

theorem Filled.runBatches {count level : Nat} {s next : State κ σ τ ε}
    (h : Filled batch level s) (hb : 0 < batch)
    (going : runBatches rules batch count level s = .running next) :
    Filled batch (level + count) next := by
  induction count generalizing level s with
  | zero =>
      cases going
      exact h
  | succ count ih =>
      rw [Schedule.runBatches] at going
      cases first : Schedule.runBatch rules batch level 0 s with
      | running middle =>
          rw [first] at going
          have rest := ih (h.runBatch hb first) going
          rwa [Nat.add_right_comm] at rest
      | ended result stats =>
          rw [first] at going
          cases going

/-- After batches that leave it going, a run has the next levels before it. -/
theorem runLevels_of_runBatches (hb : 0 < batch) {count level : Nat} {s next : State κ σ τ ε}
    (h : runBatches rules batch count level s = .running next) :
    runLevels rules batch hb level s = runLevels rules batch hb (level + count) next := by
  induction count generalizing level s with
  | zero =>
      cases h
      rfl
  | succ count ih =>
      rw [runBatches] at h
      cases first : runBatch rules batch level 0 s with
      | running middle =>
          rw [first] at h
          rw [runLevels, first]
          dsimp only
          rw [ih h, Nat.add_right_comm, Nat.add_assoc]
      | ended result stats =>
          rw [first] at h
          cases h

variable (rules) in
/-- **A run goes on until there is room for its last attempt**, by as many levels as that takes,
and it gets as deep as the last of them. -/
theorem Filled.runLevels (hb : 0 < batch) {level : Nat} {s : State κ σ τ ε}
    (h : Filled batch level s) :
    ∃ more, (runLevels rules batch hb level s).2.maxDepth = level + more + 1 ∧
      room batch (level + more) < attempts (runLevels rules batch hb level s) ∧
      attempts (runLevels rules batch hb level s) ≤ room batch (level + more + 1) ∧
      ∃ last, Schedule.runBatches rules batch more level s = .running last := by
  fun_induction Schedule.runLevels rules batch hb level s with
  | case1 level s result stats ended =>
      have measured := measured_runBatch rules hb level 0 s
      rw [ended] at measured
      obtain ⟨above, below, depth⟩ := measured
      rw [h.steps] at above below
      rw [h.depth] at depth
      exact ⟨0, by dsimp only; omega, above, below.trans_eq (room_succ batch level).symm, s, rfl⟩
  | case2 level s next going ih =>
      obtain ⟨more, depth, above, below, last, leads⟩ := ih (h.runBatch hb going)
      rw [show level + 1 + more = level + (more + 1) by omega] at depth above below
      refine ⟨more + 1, depth, above, below, last, ?_⟩
      rw [Schedule.runBatches, going]
      exact leads

/-! ### Batches inside of others -/

/-- The batches that are called in a run from `start`: a batch of some level, inside of
`depth` others, in the state that it is called in. -/
inductive Calls (rules : Rules κ σ τ ε) (batch : Nat) (start : State κ σ τ ε) :
    (level depth : Nat) → State κ σ τ ε → Prop
  /-- The next level of the run, if the lower ones leave it going. -/
  | level {level s} : runBatches rules batch level 0 start = .running s →
      Calls rules batch start level 0 s
  /-- The next unit of a batch, if the units before leave the run going. -/
  | unit {level depth s next} (count : Nat) : Calls rules batch start (level + 1) depth s →
      count < batch →
      repeatUnit (runBatch rules batch level (depth + 1)) count (s.enter (depth + 1)) =
        .running next →
      Calls rules batch start level (depth + 1) next

variable {start s : State κ σ τ ε} {level depth : Nat}

/-- A batch inside of others is part of a level of the run, which is as much higher. -/
theorem Calls.runBatches (h : Calls rules batch start level depth s) :
    ∃ whole, runBatches rules batch (level + depth) 0 start = .running whole := by
  induction h with
  | level leads => exact ⟨_, leads⟩
  | unit count _ _ _ ih => rwa [Nat.add_right_comm] at ih

/-- The first unit of each batch is called, down to the single steps, so the depth of a level is
always reached. -/
theorem Calls.innermost (hb : 0 < batch) (h : Calls rules batch start level depth s) :
    ∃ s', Calls rules batch start 0 (level + depth) s' := by
  induction level generalizing depth s with
  | zero => exact ⟨s, by rwa [Nat.zero_add]⟩
  | succ level ih =>
      obtain ⟨s', inner⟩ := ih (.unit 0 h hb rfl)
      exact ⟨s', by rwa [Nat.add_right_comm]⟩

/-! ### Whole runs -/

/-- The nesting of batches in a run is what its attempts make it. -/
structure ExactDepth (rules : Rules κ σ τ ε) (batch : Nat) (start : State κ σ τ ε)
    (run : Except (Stop ε) τ × Stats) : Prop where
  /-- It is the least nesting at which there is room for all attempts. -/
  least : IsLeast {d | 1 ≤ d ∧ attempts run ≤ ∑ i ∈ Finset.range d, batch ^ (i + 1)}
    run.2.maxDepth
  /-- So it is at most logarithmic. -/
  pow_le : batch ^ (run.2.maxDepth - 1) ≤ attempts run
  /-- No batch is called inside of more others. -/
  calls : ∀ level depth s, Calls rules batch start level depth s → depth + 1 ≤ run.2.maxDepth
  /-- Some batch is called inside of so many. -/
  reached : ∃ s, Calls rules batch start 0 (run.2.maxDepth - 1) s

/-- The depth of a whole run: it is the least one with room for all attempts, and some batch is
called at each depth up to it, none beyond. -/
theorem exactDepth_runLevels (rules : Rules κ σ τ ε) (hb : 0 < batch)
    (tasks : List (Task κ σ τ ε)) :
    ExactDepth rules batch (.start tasks) (runLevels rules batch hb 0 (.start tasks)) := by
  obtain ⟨top, depth, above, below, last, leads⟩ :=
    (filled_start batch tasks).runLevels rules hb
  rw [Nat.zero_add] at depth above below
  have inside : (runLevels rules batch hb 0 (.start tasks)).2.maxDepth - 1 = top := by omega
  refine ⟨⟨⟨by omega, by rw [depth]; exact below⟩, ?_⟩, ?_, ?_, ?_⟩
  · -- A smaller nesting has no room but that of the levels before the last one.
    rintro d ⟨-, enough⟩
    rw [depth]
    refine Nat.le_of_not_lt fun less => ?_
    have fits : attempts (runLevels rules batch hb 0 (.start tasks)) ≤ room batch d := enough
    have smaller : room batch d ≤ room batch top := room_mono (Nat.le_of_lt_succ less)
    omega
  · rw [inside]
    exact pow_le_of_room_lt above
  · intro level depth' s called
    obtain ⟨whole, reached⟩ := called.runBatches
    obtain ⟨more, nesting, -⟩ :=
      ((filled_start batch tasks).runBatches hb reached).runLevels rules hb
    rw [runLevels_of_runBatches hb reached, nesting]
    omega
  · rw [inside]
    exact Calls.innermost hb (.level leads)

/-- **The nesting of batches is exactly logarithmic**, for stacks of tasks and for tasks that run
alone, whether they succeed, fail or exceed their budget. -/
theorem depth_exact :
    (∀ {κ σ τ ε : Type} (s : Scheduler) (program : Program κ σ τ ε) (receive : σ → τ → Except ε σ)
      (tasks : List (Task κ σ τ ε)), tasks ≠ [] →
      ExactDepth ⟨program, s.budget, some receive⟩ s.batch (.start tasks.reverse)
        (s.runStack program receive tasks)) ∧
    ∀ {κ σ τ ε : Type} (s : Scheduler) (program : Program κ σ τ ε) (routine : κ) (state : σ),
      ExactDepth ⟨program, s.budget, none⟩ s.batch (.start [.new routine state])
        (s.runAlone program routine state) := by
  constructor
  · intro κ σ τ ε s program receive tasks some_task
    rw [s.runStack_eq_runLevels some_task]
    exact exactDepth_runLevels _ s.batch_pos _
  · intro κ σ τ ε s program routine state
    exact exactDepth_runLevels _ s.batch_pos _

/-- In batches of two, a countdown from 5 under a budget of five tries to take six steps.
These are the steps of one batch of level 0 and one of level 1. -/
theorem countdown_depth :
    ((Scheduler.new 2 5).runStack countdown (fun state v => .ok (state + v))
      [.new () 5]).2.maxDepth = 2 := by
  have leads : Leads countdown (some fun state v => .ok (state + v)) 5 [.new () 5] [.new () 0] :=
    .step rfl (.step rfl (.step rfl (.step rfl (.one rfl))))
  have some_task : [Task.new () 5] ≠ ([] : List (Task Unit Nat Nat String)) := List.cons_ne_nil _ _
  obtain ⟨depth, run⟩ := (Scheduler.new 2 5).runStack_of_leads some_task leads
  have exact := (depth_exact.1 (.new 2 5) countdown (fun state v => .ok (state + v)) [.new () 5]
    some_task).least
  rw [run] at exact ⊢
  have room_two : 6 ≤ room 2 2 := by decide
  have room_one : ¬ 6 ≤ room 2 1 := by decide
  have below : depth ≤ 2 := exact.2 ⟨by decide, room_two⟩
  obtain ⟨above, enough⟩ : 1 ≤ depth ∧ 6 ≤ room 2 depth := exact.1
  have deeper : depth ≠ 1 := by
    rintro rfl
    exact room_one enough
  show depth = 2
  omega

end RuleEngine.Schedule
