import RuleEngine.Schedule.Scheduler

/-!
# Runs as sequences of turns

`runLevels` takes its steps inside batches, under a budget, and keeps counters.
None of this has a say in what the tasks do.  A **turn** is one step of the
innermost task with the counters left out, and a run is a sequence of turns that
either goes on or comes to an end.

## Main definitions

* `turn` - one step, as a function of the tasks alone.
* `Leads`, `Ends` - so many turns lead from some tasks to others, or end the run
  with a result.
* `Reaches` - the states that a run gets to, which are led to by turns.

## Main statements

* `Ends.unique` - a run ends in one way only.
* `Leads.preserves`, `Ends.exists_last` - invariants of turns hold along a run,
  up to its last turn.
* `Scheduler.runStack_of_ends`, `Scheduler.runAlone_of_ends` - a run that ends
  within the budget gives its result, with the number of its turns.
* `Scheduler.runStack_of_leads` - a run that uses up the budget fails with it.
* `Scheduler.ends_of_runStack`, `Scheduler.ends_of_runAlone` - conversely, each
  result is that of a run that ended, or the budget was used up.

The size of batches does not occur in any of these statements.
-/

namespace RuleEngine.Schedule

variable {κ σ τ ε : Type}

/-- What one step makes of the tasks of a run. -/
inductive Turn (κ σ τ ε : Type)
  /-- These tasks are left, innermost first. -/
  | going (tasks : List (Task κ σ τ ε))
  /-- The run is over. -/
  | ending (result : Except (Stop ε) τ)

/-- The innermost task is done with `result` and gives it to the tasks `outer`. -/
def handBack (receive? : Option (σ → τ → Except ε σ)) (outer : List (Task κ σ τ ε))
    (result : τ) : Turn κ σ τ ε :=
  match outer, receive? with
  | [], _ => .ending (.ok result)
  | _ :: _, none => .ending (.error (.fault .unexpectedCall))
  | caller :: rest, some receive =>
    match receive caller.state result with
    | .error e => .ending (.error (.raised e))
    | .ok state => .going ({ caller with state } :: rest)

/-- One step of the innermost task. -/
def turn (program : Program κ σ τ ε) (receive? : Option (σ → τ → Except ε σ)) :
    List (Task κ σ τ ε) → Turn κ σ τ ε
  | [] => .ending (.error (.fault .noTask))
  | task :: outer =>
    match program task.routine task.state with
    | .proceed state => .going ({ task with state } :: outer)
    | .call state inner =>
      match receive? with
      | none => .ending (.error (.fault .unexpectedCall))
      | some _ => .going (inner :: { task with state } :: outer)
    | .done result => handBack (task.receiver.or receive?) outer result
    | .fail e => .ending (.error (.raised e))

/-- A turn with the counters of the state it was taken in, itself counted. -/
def Turn.counted (t : Turn κ σ τ ε) (s : State κ σ τ ε) : Phase κ σ τ ε :=
  match t with
  | going tasks => .running ⟨tasks, s.steps + 1, s.maxDepth⟩
  | ending result => .ended result ⟨s.steps + 1, s.maxDepth⟩

/-- To deliver a value, in the state of a run, is to hand it back among the tasks and to count the
step. -/
theorem deliver_eq_handBack (tasks : List (Task κ σ τ ε)) (steps depth : Nat)
    (receive? : Option (σ → τ → Except ε σ)) (outer : List (Task κ σ τ ε)) (result : τ) :
    (⟨[], steps + 1, depth⟩ : State κ σ τ ε).deliver receive? outer result =
      (handBack receive? outer result).counted ⟨tasks, steps, depth⟩ := by
  cases outer with
  | nil => rfl
  | cons caller rest =>
      cases receive? with
      | none => rfl
      | some receive =>
          simp only [State.deliver, handBack]
          cases receive caller.state result <;> rfl

/-- Within the budget, to advance a run is to take a turn and to count it.  All that the scheduler
adds to turns is counting, so everything about tasks can be said of turns alone. -/
theorem advance_eq_turn (rules : Rules κ σ τ ε) (s : State κ σ τ ε) :
    advance rules s =
      if rules.budget ≤ s.steps then s.stop (.fault (.budgetExceeded rules.budget))
      else (turn rules.program rules.receive? s.tasks).counted s := by
  obtain ⟨tasks, steps, maxDepth⟩ := s
  unfold advance
  split
  · rfl
  · cases tasks with
    | nil => rfl
    | cons task outer =>
        obtain ⟨routine, state, receiver⟩ := task
        simp only [turn]
        cases rules.program routine state with
        | proceed state => rfl
        | call state inner =>
            cases rules.receive? <;> rfl
        | done result =>
            exact deliver_eq_handBack _ steps maxDepth _ outer result
        | fail e => rfl

/-! ### Sequences of turns -/

section Sequences

variable (program : Program κ σ τ ε) (receive? : Option (σ → τ → Except ε σ))

/-- So many turns lead from some tasks to others. -/
inductive Leads : Nat → List (Task κ σ τ ε) → List (Task κ σ τ ε) → Prop
  | refl (tasks) : Leads 0 tasks tasks
  | step {n tasks next last} : turn program receive? tasks = .going next →
      Leads n next last → Leads (n + 1) tasks last

/-- After so many turns the run is over with a result. -/
inductive Ends : Nat → List (Task κ σ τ ε) → Except (Stop ε) τ → Prop
  | last {tasks result} : turn program receive? tasks = .ending result → Ends 1 tasks result
  | step {n tasks next result} : turn program receive? tasks = .going next →
      Ends n next result → Ends (n + 1) tasks result

end Sequences

variable {program : Program κ σ τ ε} {receive? : Option (σ → τ → Except ε σ)}
variable {tasks next last : List (Task κ σ τ ε)} {result : Except (Stop ε) τ} {m n : Nat}

/-- A turn that goes on is a sequence of one turn. -/
theorem Leads.one (h : turn program receive? tasks = .going next) :
    Leads program receive? 1 tasks next :=
  .step h (.refl next)

/-- Sequences of turns can be put one after another, and their lengths add up. -/
theorem Leads.trans (h : Leads program receive? m tasks next)
    (h' : Leads program receive? n next last) :
    Leads program receive? (m + n) tasks last := by
  induction h with
  | refl => simpa using h'
  | @step m _ _ _ first _ ih =>
      have := ih h'
      rw [Nat.add_right_comm]
      exact .step first this

/-- A run that ends after some turns ends, as a whole, so many turns later. -/
theorem Leads.ends (h : Leads program receive? m tasks next)
    (h' : Ends program receive? n next result) :
    Ends program receive? (m + n) tasks result := by
  induction h with
  | refl => simpa using h'
  | @step m _ _ _ first _ ih =>
      have := ih h'
      rw [Nat.add_right_comm]
      exact .step first this

theorem Ends.pos (h : Ends program receive? n tasks result) : 0 < n := by
  cases h <;> omega

/-- Turns are a function of the tasks, so a run that ends ends in one way and after one number of
turns. -/
theorem Ends.unique {result' : Except (Stop ε) τ} (h : Ends program receive? m tasks result)
    (h' : Ends program receive? n tasks result') : m = n ∧ result = result' := by
  induction h generalizing n with
  | last ending =>
      cases h' with
      | last ending' => simpa [ending] using ending'
      | step going' _ => simp [ending] at going'
  | step going _ ih =>
      cases h' with
      | last ending' => simp [going] at ending'
      | step going' rest' =>
          obtain rfl : _ = _ := Turn.going.inj (going.symm.trans going')
          obtain ⟨rfl, rfl⟩ := ih rest'
          exact ⟨rfl, rfl⟩

/-- What a run that ends has left to do after its first turns: the other turns, to the same end. -/
theorem Ends.after (h : Ends program receive? n tasks result)
    (h' : Leads program receive? m tasks next) :
    ∃ k, n = m + k ∧ Ends program receive? k next result := by
  induction h' generalizing n with
  | refl => exact ⟨n, (Nat.zero_add n).symm, h⟩
  | step going _ ih =>
      cases h with
      | last ending => simp [going] at ending
      | step going' rest =>
          obtain rfl : _ = _ := Turn.going.inj (going.symm.trans going')
          obtain ⟨k, rfl, hk⟩ := ih rest
          exact ⟨k, by omega, hk⟩

/-- What every turn preserves is preserved by a sequence of turns.  Every invariant of the
evaluator and the parser is proved by a lemma on one turn and this one. -/
theorem Leads.preserves {P : List (Task κ σ τ ε) → Prop}
    (keeps : ∀ tasks next, P tasks → turn program receive? tasks = .going next → P next)
    (h : Leads program receive? n tasks next) (start : P tasks) : P next := by
  induction h with
  | refl => exact start
  | step going _ ih => exact ih (keeps _ _ start going)

/-- A run that ends goes on up to its last turn, which ends it. -/
theorem Ends.exists_leads (h : Ends program receive? n tasks result) :
    ∃ k last, n = k + 1 ∧ Leads program receive? k tasks last ∧
      turn program receive? last = .ending result := by
  induction h with
  | @last tasks result ending => exact ⟨0, tasks, rfl, .refl tasks, ending⟩
  | step going _ ih =>
      obtain ⟨k, last, rfl, leads, ending⟩ := ih
      exact ⟨k + 1, last, rfl, .step going leads, ending⟩

/-- What every turn preserves holds when the last turn is taken, so that the result can be read
off the tasks that were left. -/
theorem Ends.exists_last {P : List (Task κ σ τ ε) → Prop}
    (keeps : ∀ tasks next, P tasks → turn program receive? tasks = .going next → P next)
    (h : Ends program receive? n tasks result) (start : P tasks) :
    ∃ last, P last ∧ turn program receive? last = .ending result := by
  obtain ⟨k, last, -, leads, ending⟩ := h.exists_leads
  exact ⟨last, leads.preserves keeps start, ending⟩

/-- Given any number of turns, a run is over or goes on.  A turn always has an outcome, even
without any task. -/
theorem ends_or_leads (program : Program κ σ τ ε) (receive? : Option (σ → τ → Except ε σ))
    (n : Nat) (tasks : List (Task κ σ τ ε)) :
    (∃ m result, m ≤ n ∧ Ends program receive? m tasks result) ∨
      ∃ next, Leads program receive? n tasks next := by
  induction n generalizing tasks with
  | zero => exact .inr ⟨tasks, .refl tasks⟩
  | succ n ih =>
      cases first : turn program receive? tasks with
      | ending result => exact .inl ⟨1, result, by omega, .last first⟩
      | going next =>
          rcases ih next with ⟨m, result, hm, ends⟩ | ⟨last, leads⟩
          · exact .inl ⟨m + 1, result, by omega, .step first ends⟩
          · exact .inr ⟨last, .step first leads⟩

/-! ### Batches take turns -/

/-- A run gets from a state to another one: it advances, and enters batches. -/
inductive Reaches (rules : Rules κ σ τ ε) : State κ σ τ ε → State κ σ τ ε → Prop
  | refl (s) : Reaches rules s s
  | advance {s next last} : advance rules s = .running next → Reaches rules next last →
      Reaches rules s last
  | enter {s last} (depth : Nat) : Reaches rules (s.enter depth) last → Reaches rules s last

/-- States that a run of batches gets to are states that turns lead to, in some number of turns. -/
theorem Reaches.leads {rules : Rules κ σ τ ε} {s s' : State κ σ τ ε} (h : Reaches rules s s') :
    ∃ n, Leads rules.program rules.receive? n s.tasks s'.tasks := by
  induction h with
  | refl s => exact ⟨0, .refl _⟩
  | @advance s next last going _ ih =>
      obtain ⟨n, leads⟩ := ih
      rw [advance_eq_turn] at going
      split at going
      · cases going
      · cases first : turn rules.program rules.receive? s.tasks with
        | ending result => simp [first, Turn.counted] at going
        | going tasks =>
            simp only [first, Turn.counted, Phase.running.injEq] at going
            subst going
            exact ⟨n + 1, .step first leads⟩
  | enter depth _ ih => exact ih

/-- A phase that comes from a state by taking turns, all of them counted.  A run
that has ended did so by its last turn, or its budget was used up. -/
def Phase.Follows (rules : Rules κ σ τ ε) (s : State κ σ τ ε) : Phase κ σ τ ε → Prop
  | running next =>
      ∃ n, Leads rules.program rules.receive? n s.tasks next.tasks ∧
        next.steps = s.steps + n ∧ next.steps ≤ max s.steps rules.budget
  | ended result stats =>
      (∃ n, Ends rules.program rules.receive? n s.tasks result ∧
        stats.steps = s.steps + n ∧ stats.steps ≤ rules.budget) ∨
      (∃ n last, Leads rules.program rules.receive? n s.tasks last ∧
        stats.steps = s.steps + n ∧ stats.steps = max s.steps rules.budget ∧
        result = .error (.fault (.budgetExceeded rules.budget)))

/-- What follows on a state that was reached by turns follows on the state where they began. -/
theorem Phase.Follows.trans {rules : Rules κ σ τ ε} {s middle : State κ σ τ ε}
    {p : Phase κ σ τ ε} (h : (Phase.running middle).Follows rules s)
    (h' : p.Follows rules middle) : p.Follows rules s := by
  obtain ⟨m, leads, steps, bound⟩ := h
  cases p with
  | running next =>
      obtain ⟨n, leads', steps', bound'⟩ := h'
      exact ⟨m + n, leads.trans leads', by omega, by omega⟩
  | ended result stats =>
      rcases h' with ⟨n, ends, steps', bound'⟩ | ⟨n, last, leads', steps', bound', failed⟩
      · exact .inl ⟨m + n, leads.ends ends, by omega, bound'⟩
      · exact .inr ⟨m + n, last, leads.trans leads', by omega, by omega, failed⟩

/-- A single step takes a turn, or finds the budget used up. -/
theorem follows_advance (rules : Rules κ σ τ ε) (s : State κ σ τ ε) :
    (advance rules s).Follows rules s := by
  rw [advance_eq_turn]
  split
  · rename_i exhausted
    refine .inr ⟨0, s.tasks, .refl _, rfl, ?_, rfl⟩
    exact (Nat.max_eq_left exhausted).symm
  · rename_i within
    cases first : turn rules.program rules.receive? s.tasks with
    | going next => exact ⟨1, .one first, rfl, by dsimp only; omega⟩
    | ending result => exact .inl ⟨1, .last first, rfl, by dsimp only; omega⟩

/-- If a unit takes turns, so does any number of them in a row. -/
theorem follows_repeatUnit {rules : Rules κ σ τ ε} {unit : State κ σ τ ε → Phase κ σ τ ε}
    (h : ∀ s, (unit s).Follows rules s) (count : Nat) (s : State κ σ τ ε) :
    (repeatUnit unit count s).Follows rules s := by
  induction count generalizing s with
  | zero => exact ⟨0, .refl _, rfl, Nat.le_max_left _ _⟩
  | succ count ih =>
      have first := h s
      rw [repeatUnit]
      cases hs : unit s with
      | running next =>
          rw [hs] at first
          exact first.trans (ih next)
      | ended result stats =>
          rw [hs] at first
          exact first

/-- The depth of batches is a counter only, of which turns know nothing. -/
theorem follows_enter {rules : Rules κ σ τ ε} {s : State κ σ τ ε} {depth : Nat}
    {p : Phase κ σ τ ε} : p.Follows rules (s.enter depth) ↔ p.Follows rules s := by
  cases p <;> rfl

/-- A batch of any level takes turns: it is made of batches of the level below, down to the single
steps. -/
theorem follows_runBatch (rules : Rules κ σ τ ε) (batch level depth : Nat)
    (s : State κ σ τ ε) : (runBatch rules batch level depth s).Follows rules s := by
  induction level generalizing depth s with
  | zero => exact follows_enter.mp (follows_repeatUnit (follows_advance rules) _ _)
  | succ level ih =>
      exact follows_enter.mp (follows_repeatUnit (ih (depth + 1)) _ _)

/-- So do batches of rising levels.  They end the run, since each of them uses up some of the
budget. -/
theorem follows_runLevels (rules : Rules κ σ τ ε) (batch : Nat) (hb : 0 < batch)
    (level : Nat) (s : State κ σ τ ε) :
    (Phase.ended (runLevels rules batch hb level s).1
      (runLevels rules batch hb level s).2).Follows rules s := by
  fun_induction runLevels rules batch hb level s with
  | case1 level s result stats h =>
      have := follows_runBatch rules batch level 0 s
      rwa [h] at this
  | case2 level s next h ih =>
      have := follows_runBatch rules batch level 0 s
      rw [h] at this
      exact this.trans ih

/-! ### Whole runs -/

section Runs

variable (rules : Rules κ σ τ ε) {batch : Nat} (hb : 0 < batch)

/-- A run that ends within the budget gives its result and the number of its turns, whatever the
batches are.  Only the depth depends on them. -/
theorem runLevels_of_ends (h : Ends rules.program rules.receive? n tasks result)
    (within : n ≤ rules.budget) :
    ∃ depth, runLevels rules batch hb 0 (.start tasks) = (result, ⟨n, depth⟩) := by
  have follows := follows_runLevels rules batch hb 0 (.start tasks)
  generalize runLevels rules batch hb 0 (.start tasks) = outcome at follows ⊢
  obtain ⟨result', steps, depth⟩ := outcome
  simp only [Phase.Follows, State.start] at follows
  rcases follows with ⟨m, ends, hm, -⟩ | ⟨m, last, leads, hm, hsteps, -⟩
  · obtain ⟨rfl, rfl⟩ := h.unique ends
    exact ⟨depth, by rw [hm, Nat.zero_add]⟩
  · -- The budget was used up before the run ended, which takes at least one more turn.
    obtain ⟨k, rfl, rest⟩ := h.after leads
    have := rest.pos
    omega

/-- A run that has used up the budget fails with it, and has counted all of it. -/
theorem runLevels_of_leads (h : Leads rules.program rules.receive? rules.budget tasks last) :
    ∃ depth, runLevels rules batch hb 0 (.start tasks) =
      (.error (.fault (.budgetExceeded rules.budget)), ⟨rules.budget, depth⟩) := by
  have follows := follows_runLevels rules batch hb 0 (.start tasks)
  generalize runLevels rules batch hb 0 (.start tasks) = outcome at follows ⊢
  obtain ⟨result', steps, depth⟩ := outcome
  simp only [Phase.Follows, State.start] at follows
  rcases follows with ⟨m, ends, hm, hsteps⟩ | ⟨m, last, leads, hm, hsteps, rfl⟩
  · -- The last turn would have to be taken after the budget was used up.
    obtain ⟨k, rfl, rest⟩ := ends.after h
    have := rest.pos
    omega
  · exact ⟨depth, by rw [hsteps, Nat.max_eq_right (Nat.zero_le _)]⟩

end Runs

namespace Scheduler

variable (s : Scheduler) {receive : σ → τ → Except ε σ}

/-- A stack that is not empty is run in batches of rising levels, with its last task on top. -/
theorem runStack_eq_runLevels (hne : tasks ≠ []) :
    s.runStack program receive tasks =
      runLevels ⟨program, s.budget, some receive⟩ s.batch s.batch_pos 0
        (.start tasks.reverse) := by
  cases tasks with
  | nil => exact absurd rfl hne
  | cons task rest => rfl

/-- A stack of tasks of which the turns end within the budget comes to their result. -/
theorem runStack_of_ends (hne : tasks ≠ [])
    (h : Ends program (some receive) n tasks.reverse result) (within : n ≤ s.budget) :
    ∃ depth, s.runStack program receive tasks = (result, ⟨n, depth⟩) := by
  rw [runStack_eq_runLevels s hne]
  exact runLevels_of_ends ⟨program, s.budget, some receive⟩ s.batch_pos h within

/-- A stack of tasks of which the turns go on beyond the budget exceeds it. -/
theorem runStack_of_leads (hne : tasks ≠ [])
    (h : Leads program (some receive) s.budget tasks.reverse last) :
    ∃ depth, s.runStack program receive tasks =
      (.error (.fault (.budgetExceeded s.budget)), ⟨s.budget, depth⟩) := by
  rw [runStack_eq_runLevels s hne]
  exact runLevels_of_leads ⟨program, s.budget, some receive⟩ s.batch_pos h

/-- A stack of tasks either ends within the budget or uses it up.  The two cases are the way in
which runs are taken apart in all other modules. -/
theorem ends_of_runStack (program : Program κ σ τ ε) (receive : σ → τ → Except ε σ)
    (hne : tasks ≠ []) :
    (∃ n depth result, n ≤ s.budget ∧ Ends program (some receive) n tasks.reverse result ∧
      s.runStack program receive tasks = (result, ⟨n, depth⟩)) ∨
    (∃ last depth, Leads program (some receive) s.budget tasks.reverse last ∧
      s.runStack program receive tasks =
        (.error (.fault (.budgetExceeded s.budget)), ⟨s.budget, depth⟩)) := by
  rcases ends_or_leads program (some receive) s.budget tasks.reverse with
    ⟨n, result, within, ends⟩ | ⟨last, leads⟩
  · obtain ⟨depth, h⟩ := s.runStack_of_ends hne ends within
    exact .inl ⟨n, depth, result, within, ends, h⟩
  · obtain ⟨depth, h⟩ := s.runStack_of_leads hne leads
    exact .inr ⟨last, depth, leads, h⟩

variable {routine : κ} {state : σ}

/-- A task that runs alone comes to what its turns end with, if the budget allows them. -/
theorem runAlone_of_ends (h : Ends program none n [Task.new routine state] result)
    (within : n ≤ s.budget) :
    ∃ depth, s.runAlone program routine state = (result, ⟨n, depth⟩) :=
  runLevels_of_ends ⟨program, s.budget, none⟩ s.batch_pos h within

/-- A task that runs alone either ends within the budget or uses it up. -/
theorem ends_of_runAlone (program : Program κ σ τ ε) (routine : κ) (state : σ) :
    (∃ n depth result, n ≤ s.budget ∧ Ends program none n [Task.new routine state] result ∧
      s.runAlone program routine state = (result, ⟨n, depth⟩)) ∨
    (∃ last depth, Leads program none s.budget [Task.new routine state] last ∧
      s.runAlone program routine state =
        (.error (.fault (.budgetExceeded s.budget)), ⟨s.budget, depth⟩)) := by
  rcases ends_or_leads program none s.budget [Task.new routine state] with
    ⟨n, result, within, ends⟩ | ⟨last, leads⟩
  · obtain ⟨depth, h⟩ := s.runAlone_of_ends ends within
    exact .inl ⟨n, depth, result, within, ends, h⟩
  · obtain ⟨depth, h⟩ := runLevels_of_leads ⟨program, s.budget, none⟩ s.batch_pos leads
    exact .inr ⟨last, depth, leads, h⟩

end Scheduler

end RuleEngine.Schedule
