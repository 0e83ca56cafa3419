import RuleEngine.Proofs.Schedule.Budget

/-!
# Tasks on top of others

Only the innermost task of a run moves.  So a task does what it would do alone,
whatever tasks are outside of it, until it is done; then its result enters the
state of its caller, and the run goes on as if there had been no such task.

## Main definitions

* `Turn.inside` - what a turn of tasks becomes if there are others outside.
* `Yields` - what a task comes to alone, and in how many steps.
* `delayed` - the outcome of a run that begins so many steps later.
* `Compositional` - the laws of runs with tasks inside of others.

## Main statements

* `turn_append` - the tasks outside have no part in a turn, except that they take
  the value of the last task inside.
* `Leads.inside`, `Ends.inside`, `Ends.hands` - hence they have none in a sequence
  of turns.
* `Ends.withReceiver`, `Ends.exists_alone` - what a task comes to alone does not depend
  on its receiver, and a run that ends has brought its innermost task to an end.
* `compositional` - the laws hold for all programs.

The law for turns is about tasks with some last one, `base`.  The tasks that it
calls come and go, but it stays the last one with the receiver that it has, and
this is the receiver that in the end counts.
-/

namespace RuleEngine.Schedule

variable {κ σ τ ε : Type} {program : Program κ σ τ ε} {receive : σ → τ → Except ε σ}

/-! ### Single turns -/

/-- A turn of tasks of which the last one gives its value by `receive` to tasks
outside. -/
def Turn.inside (t : Turn κ σ τ ε) (receive : σ → τ → Except ε σ)
    (outer : List (Task κ σ τ ε)) : Turn κ σ τ ε :=
  match t with
  | going tasks => going (tasks ++ outer)
  | ending (.ok v) => handBack (some receive) outer v
  | ending (.error why) => ending (.error why)

/-- **The tasks outside have no part in a turn**, except that they take the value of the last task
inside.  What a turn does with the inner tasks can be found out without the outer ones. -/
theorem turn_append (front : List (Task κ σ τ ε)) (base : Task κ σ τ ε)
    (outer : List (Task κ σ τ ε)) :
    turn program (some receive) (front ++ [base] ++ outer) =
      (turn program (some receive) (front ++ [base])).inside (base.receiver.getD receive)
        outer := by
  cases front with
  | nil =>
      simp only [List.nil_append, List.cons_append, turn]
      cases program base.routine base.state with
      | proceed state => rfl
      | call state inner => rfl
      | done v => cases base.receiver <;> rfl
      | fail e => rfl
  | cons first front =>
      simp only [List.cons_append, turn]
      cases program first.routine first.state with
      | proceed state => rfl
      | call state inner => rfl
      | fail e => rfl
      | done v =>
          -- The value goes to the next task inside, of which there is one at least.
          simp only [Option.or_some]
          cases front with
          | nil =>
              simp only [List.nil_append, List.cons_append, handBack]
              cases first.receiver.getD receive base.state v <;> rfl
          | cons caller front =>
              simp only [List.cons_append, handBack]
              cases first.receiver.getD receive caller.state v <;> rfl

/-- What is left after a turn: the task in another state, a task that it has called,
or its caller in another state. -/
theorem exists_of_turn_eq_going {task : Task κ σ τ ε} {outer next : List (Task κ σ τ ε)}
    (h : turn program (some receive) (task :: outer) = .going next) :
    (∃ state, program task.routine task.state = .proceed state ∧
      next = { task with state } :: outer) ∨
    (∃ state inner, program task.routine task.state = .call state inner ∧
      next = inner :: { task with state } :: outer) ∨
    ∃ v caller rest state, program task.routine task.state = .done v ∧ outer = caller :: rest ∧
      task.receiver.getD receive caller.state v = .ok state ∧
      next = { caller with state } :: rest := by
  simp only [turn] at h
  cases stepped : program task.routine task.state with
  | proceed state =>
      simp only [stepped, Turn.going.injEq] at h
      exact .inl ⟨state, rfl, h.symm⟩
  | call state inner =>
      simp only [stepped, Turn.going.injEq] at h
      exact .inr (.inl ⟨state, inner, rfl, h.symm⟩)
  | fail e => simp [stepped] at h
  | done v =>
      simp only [stepped, Option.or_some] at h
      cases outer with
      | nil => simp [handBack] at h
      | cons caller rest =>
          simp only [handBack] at h
          cases taken : task.receiver.getD receive caller.state v with
          | error e => simp [taken] at h
          | ok state =>
              simp only [taken, Turn.going.injEq] at h
              exact .inr (.inr ⟨v, caller, rest, state, rfl, rfl, taken, h.symm⟩)

/-- A run has a value by the only task that is left, when this is done. -/
theorem exists_of_turn_eq_ending_ok {tasks : List (Task κ σ τ ε)} {v : τ}
    (h : turn program (some receive) tasks = .ending (.ok v)) :
    ∃ task, tasks = [task] ∧ program task.routine task.state = .done v := by
  cases tasks with
  | nil => cases h
  | cons task outer =>
      simp only [turn] at h
      cases stepped : program task.routine task.state with
      | proceed state => simp [stepped] at h
      | call state inner => simp [stepped] at h
      | fail e => simp [stepped] at h
      | done w =>
          simp only [stepped, Option.or_some] at h
          cases outer with
          | nil =>
              simp only [handBack, Turn.ending.injEq, Except.ok.injEq] at h
              exact ⟨task, rfl, h ▸ stepped⟩
          | cons caller rest =>
              simp only [handBack] at h
              cases taken : task.receiver.getD receive caller.state w with
              | error e => simp [taken] at h
              | ok state => simp [taken] at h

/-- The last task inside may change its state only, as long as it is there.  Its routine and its
receiver are the same from the moment it is called. -/
theorem exists_base_of_turn {front next : List (Task κ σ τ ε)} {base : Task κ σ τ ε}
    (h : turn program (some receive) (front ++ [base]) = .going next) :
    ∃ front' state, next = front' ++ [{ base with state }] := by
  cases front with
  | nil =>
      rcases exists_of_turn_eq_going h with
        ⟨state, -, rfl⟩ | ⟨state, inner, -, rfl⟩ | ⟨v, caller, rest, state, -, outside, -⟩
      · exact ⟨[], state, rfl⟩
      · exact ⟨[inner], state, rfl⟩
      · cases outside
  | cons first front =>
      rcases exists_of_turn_eq_going h with
        ⟨state, -, rfl⟩ | ⟨state, inner, -, rfl⟩ | ⟨v, caller, rest, state, -, inside, -, rfl⟩
      · exact ⟨{ first with state } :: front, base.state, rfl⟩
      · exact ⟨inner :: { first with state } :: front, base.state, rfl⟩
      · cases front with
        | nil =>
            obtain ⟨rfl, rfl⟩ := List.cons.inj inside
            exact ⟨[], state, rfl⟩
        | cons caller' front =>
            obtain ⟨rfl, rfl⟩ := List.cons.inj inside
            exact ⟨{ caller' with state } :: front, base.state, rfl⟩

/-! ### Sequences of turns -/

variable {k n : Nat} {base task caller : Task κ σ τ ε} {outer : List (Task κ σ τ ε)}

/-- **A task goes on as it would alone.**  The tasks outside stay what they are, and the task
itself is the last one inside at every moment. -/
theorem Leads.inside {tasks last : List (Task κ σ τ ε)}
    (h : Leads program (some receive) k tasks last) {front : List (Task κ σ τ ε)}
    (same : tasks = front ++ [base]) :
    (∃ front' state, last = front' ++ [{ base with state }]) ∧
      ∀ outer, Leads program (some receive) k (tasks ++ outer) (last ++ outer) := by
  induction h generalizing front base with
  | refl tasks => exact ⟨⟨front, base.state, same⟩, fun outer => .refl _⟩
  | step going _ ih =>
      subst same
      obtain ⟨front', state, same'⟩ := exists_base_of_turn going
      obtain ⟨⟨front'', state', same''⟩, later⟩ := ih same'
      refine ⟨⟨front'', state', same''⟩, fun outer => .step ?_ (later outer)⟩
      rw [turn_append, going]
      rfl

/-- The last turn of a task alone, if there are tasks outside: it hands its value to the first of
them, where alone it would have ended the run. -/
theorem Ends.exists_turn_inside {result : Except (Stop ε) τ}
    (h : Ends program (some receive) n [task] result) (outer : List (Task κ σ τ ε)) :
    ∃ k tasks, n = k + 1 ∧ Leads program (some receive) k (task :: outer) tasks ∧
      turn program (some receive) tasks =
        (Turn.ending result).inside (task.receiver.getD receive) outer := by
  obtain ⟨k, last, rfl, leads, ending⟩ := h.exists_leads
  obtain ⟨⟨front, state, rfl⟩, beside⟩ := leads.inside (show [task] = [] ++ [task] from rfl)
  refine ⟨k, _, rfl, beside outer, ?_⟩
  rw [turn_append, ending]

/-- A task that fails alone fails inside of others.  There is no way for the tasks outside to go
on after that. -/
theorem Ends.inside {why : Stop ε} (h : Ends program (some receive) n [task] (.error why))
    (outer : List (Task κ σ τ ε)) :
    Ends program (some receive) n (task :: outer) (.error why) := by
  obtain ⟨k, tasks, rfl, leads, ending⟩ := h.exists_turn_inside outer
  exact leads.ends (.last ending)

/-- **A task that is done hands its value to its caller**, in the same turn in which it would have
ended the run alone.  The tasks outside of the caller are not touched. -/
theorem Ends.hands {v : τ} {state : σ} (h : Ends program (some receive) n [task] (.ok v))
    (taken : (task.receiver.getD receive) caller.state v = .ok state)
    (outer : List (Task κ σ τ ε)) :
    Leads program (some receive) n (task :: caller :: outer) ({ caller with state } :: outer) := by
  obtain ⟨k, tasks, rfl, leads, handed⟩ := h.exists_turn_inside (caller :: outer)
  refine leads.trans (.one ?_)
  simpa only [Turn.inside, handBack, taken] using handed

/-- A value that the caller does not take is the end of the run, with the error of the receiver. -/
theorem Ends.refused {v : τ} {e : ε} (h : Ends program (some receive) n [task] (.ok v))
    (refused : (task.receiver.getD receive) caller.state v = .error e)
    (outer : List (Task κ σ τ ε)) :
    Ends program (some receive) n (task :: caller :: outer) (.error (.raised e)) := by
  obtain ⟨k, tasks, rfl, leads, handed⟩ := h.exists_turn_inside (caller :: outer)
  refine leads.ends (.last ?_)
  simpa only [Turn.inside, handBack, refused] using handed

/-- What a task does alone does not depend on its receiver, for which it has no use there. -/
theorem turn_withReceiver (program : Program κ σ τ ε) (receive : σ → τ → Except ε σ)
    (front : List (Task κ σ τ ε)) (base : Task κ σ τ ε)
    (receiver : Option (σ → τ → Except ε σ)) :
    match turn program (some receive) (front ++ [base]) with
    | .going next => ∃ front' state, next = front' ++ [{ base with state }] ∧
        turn program (some receive) (front ++ [{ base with receiver }]) =
          .going (front' ++ [{ base with state, receiver }])
    | .ending result =>
        turn program (some receive) (front ++ [{ base with receiver }]) = .ending result := by
  rcases front.eq_nil_or_concat with rfl | ⟨front, last, rfl⟩
  · simp only [List.nil_append, turn]
    cases program base.routine base.state with
    | proceed state => exact ⟨[], state, rfl, rfl⟩
    | call state inner => exact ⟨[inner], state, rfl, rfl⟩
    | done v => rfl
    | fail e => rfl
  · -- The task is outside of another one, which has to be done first.
    rw [List.concat_eq_append, turn_append, turn_append]
    cases turn program (some receive) (front ++ [last]) with
    | going tasks => exact ⟨tasks, base.state, rfl, rfl⟩
    | ending result =>
        cases result with
        | error why => rfl
        | ok v =>
            simp only [Turn.inside, handBack]
            cases last.receiver.getD receive base.state v with
            | error e => rfl
            | ok state => exact ⟨[], state, rfl, rfl⟩

/-- So a run of a task alone ends in the same way with any receiver, and what is known of it can
be used wherever it is called. -/
theorem Ends.withReceiver {tasks : List (Task κ σ τ ε)} {result : Except (Stop ε) τ}
    (h : Ends program (some receive) n tasks result) {front : List (Task κ σ τ ε)}
    (same : tasks = front ++ [base]) (receiver : Option (σ → τ → Except ε σ)) :
    Ends program (some receive) n (front ++ [{ base with receiver }]) result := by
  induction h generalizing front base with
  | last ending =>
      subst same
      have last := turn_withReceiver program receive front base receiver
      rw [ending] at last
      exact .last last
  | step going _ ih =>
      subst same
      have first := turn_withReceiver program receive front base receiver
      rw [going] at first
      obtain ⟨front', state, same', going'⟩ := first
      exact .step going' (ih same')

/-- A run that ends gets to the end of its innermost task, which takes no more turns than the
whole. -/
theorem Ends.exists_alone {result : Except (Stop ε) τ}
    (h : Ends program (some receive) n (task :: outer) result) :
    ∃ m result', m ≤ n ∧ Ends program (some receive) m [task] result' := by
  rcases ends_or_leads program (some receive) n [task] with alone | ⟨next, leads⟩
  · exact alone
  · obtain ⟨-, beside⟩ := leads.inside (show [task] = [] ++ [task] from rfl)
    have := lt_of_ends_of_leads h (beside outer)
    omega

/-! ### Faults -/

/-- The ways in which a run with tasks cannot end. -/
def Regular (result : Except (Stop ε) τ) : Prop :=
  result ≠ .error (.fault .noTask) ∧ result ≠ .error (.fault .unexpectedCall)

/-- A turn ends a run with a value or an error that a step raised, as long as there is a task and
calls are expected. -/
theorem regular_of_turn {tasks : List (Task κ σ τ ε)} {result : Except (Stop ε) τ}
    (some_task : tasks ≠ []) (h : turn program (some receive) tasks = .ending result) :
    Regular result := by
  cases tasks with
  | nil => exact absurd rfl some_task
  | cons task outer =>
      simp only [turn] at h
      cases stepped : program task.routine task.state with
      | proceed state => simp [stepped] at h
      | call state inner => simp [stepped] at h
      | fail e =>
          simp only [stepped, Turn.ending.injEq] at h
          simp [← h, Regular]
      | done v =>
          simp only [stepped, Option.or_some] at h
          cases outer with
          | nil =>
              simp only [handBack, Turn.ending.injEq] at h
              simp [← h, Regular]
          | cons caller outer =>
              simp only [handBack] at h
              cases taken : task.receiver.getD receive caller.state v with
              | ok state => simp [taken] at h
              | error e =>
                  simp only [taken, Turn.ending.injEq] at h
                  simp [← h, Regular]

/-- A turn leaves some task, since a task that is done is followed by its caller or by the end of
the run. -/
theorem ne_nil_of_turn {tasks next : List (Task κ σ τ ε)} (some_task : tasks ≠ [])
    (h : turn program (some receive) tasks = .going next) : next ≠ [] := by
  rw [← List.dropLast_concat_getLast some_task] at h
  obtain ⟨front, state, rfl⟩ := exists_base_of_turn h
  simp

/-- So a run never ends for want of a task, nor because of one too many. -/
theorem Ends.regular {tasks : List (Task κ σ τ ε)} {result : Except (Stop ε) τ}
    (h : Ends program (some receive) n tasks result) (some_task : tasks ≠ []) :
    Regular result := by
  obtain ⟨last, some_task', ending⟩ :=
    h.exists_last (P := (· ≠ [])) (fun _ _ => ne_nil_of_turn) some_task
  exact regular_of_turn some_task' ending

/-! ### Runs of schedulers -/

/-- What a task comes to alone, and in how many steps, whatever the budget and the
batches of the run are. -/
def Yields (program : Program κ σ τ ε) (receive : σ → τ → Except ε σ) (task : Task κ σ τ ε)
    (result : Except (Stop ε) τ) (count : Nat) : Prop :=
  ∃ s : Scheduler, outcome (s.runStack program receive [task]) = (result, count)

/-- The outcome of a run that begins `count` steps later, and has as much more of a
budget. -/
def delayed (count : Nat) (run : Except (Stop ε) τ × Nat) : Except (Stop ε) τ × Nat :=
  match run with
  | (.error (.fault (.budgetExceeded budget)), steps) =>
      (.error (.fault (.budgetExceeded (budget + count))), steps + count)
  | (result, steps) => (result, steps + count)

/-- Any outcome but the end of a budget is delayed by adding steps. -/
theorem delayed_of_ne {result : Except (Stop ε) τ}
    (regular : ∀ b, result ≠ .error (.fault (.budgetExceeded b))) (count steps : Nat) :
    delayed count (result, steps) = (result, steps + count) := by
  unfold delayed
  split
  · rename_i budget steps' same
    exact absurd (Prod.ext_iff.mp same).1 (regular budget)
  · rename_i result' steps' _ same
    obtain ⟨rfl, rfl⟩ := Prod.ext_iff.mp same
    rfl

/-- A run that is over was one that ended, unless it has used up its budget. -/
theorem Yields.ends {result : Except (Stop ε) τ} {count : Nat}
    (h : Yields program receive task result count)
    (regular : ∀ b, result ≠ .error (.fault (.budgetExceeded b))) :
    Ends program (some receive) count [task] result := by
  obtain ⟨s, run⟩ := h
  rcases s.ends_of_runStack program receive (List.cons_ne_nil task []) with
    ⟨n, depth, result', -, ends, run'⟩ | ⟨last, depth, -, run'⟩
  · obtain ⟨rfl, rfl⟩ := Prod.ext_iff.mp ((congrArg outcome run').symm.trans run)
    exact ends
  · have exceeded := (Prod.ext_iff.mp ((congrArg outcome run').symm.trans run)).1
    exact absurd exceeded.symm (regular s.budget)

/-- The outcome of a run that ends within the budget has the result of its turns and their
number. -/
theorem outcome_runStack_of_ends (s : Scheduler) {tasks : List (Task κ σ τ ε)}
    {result : Except (Stop ε) τ} (some_task : tasks ≠ [])
    (h : Ends program (some receive) n tasks.reverse result) (within : n ≤ s.budget) :
    outcome (s.runStack program receive tasks) = (result, n) := by
  obtain ⟨depth, run⟩ := s.runStack_of_ends some_task h within
  rw [run]
  rfl

/-- What a task yields is what its turns end with.  The one is said with schedulers and budgets,
the other without. -/
theorem yields_iff_ends {result : Except (Stop ε) τ} {count : Nat}
    (regular : ∀ b, result ≠ .error (.fault (.budgetExceeded b))) :
    Yields program receive task result count ↔
      Ends program (some receive) count [task] result :=
  ⟨fun h => h.ends regular, fun h => ⟨.new 0 count,
    outcome_runStack_of_ends (.new 0 count) (List.cons_ne_nil task []) h (Nat.le_refl count)⟩⟩

/-- **A run comes to what is left of it, so many steps later.**  If the budget is used up, it is
the whole budget that is exceeded, and no more steps are counted than it has. -/
theorem outcome_runStack_of_leads {tasks next : List (Task κ σ τ ε)} {whole rest : Scheduler}
    (some_task : tasks ≠ []) (some_next : next ≠ [])
    (h : Leads program (some receive) k tasks.reverse next.reverse)
    (budgets : whole.budget = rest.budget + k) :
    outcome (whole.runStack program receive tasks) =
      delayed k (outcome (rest.runStack program receive next)) := by
  rcases rest.ends_of_runStack program receive some_next with
    ⟨n, depth, result, within, ends, run⟩ | ⟨last, depth, leads, run⟩
  · rw [run, outcome_runStack_of_ends whole some_task (h.ends ends) (by omega)]
    rw [outcome, delayed_of_ne ends.ne_budgetExceeded, Nat.add_comm]
  · have used := h.trans leads
    rw [Nat.add_comm, ← budgets] at used
    obtain ⟨depth', run'⟩ := whole.runStack_of_leads some_task used
    rw [run, run', budgets]
    rfl

/-! ### Steps within the budget -/

/-- A step that leaves the run going is a turn that the budget allows, and it is counted. -/
theorem advance_eq_running_iff {rules : Rules κ σ τ ε} {s next : State κ σ τ ε} :
    advance rules s = .running next ↔
      s.steps < rules.budget ∧
        turn rules.program rules.receive? s.tasks = .going next.tasks ∧
        next.steps = s.steps + 1 ∧ next.maxDepth = s.maxDepth := by
  obtain ⟨tasks, steps, depth⟩ := next
  rw [advance_eq_turn]
  split
  · rename_i exhausted
    simp [State.stop, Nat.not_lt.mpr exhausted]
  · rename_i within
    cases turn rules.program rules.receive? s.tasks with
    | ending result => simp [Turn.counted]
    | going tasks' =>
        simp only [Turn.counted, Phase.running.injEq, State.mk.injEq, Turn.going.injEq]
        constructor
        · rintro ⟨same, steps, depth⟩
          exact ⟨Nat.lt_of_not_le within, same, steps.symm, depth.symm⟩
        · rintro ⟨-, same, steps, depth⟩
          exact ⟨same, steps.symm, depth.symm⟩

/-- A step that ends the run is a turn that ends it, unless the budget was used up.  It is counted
as well. -/
theorem advance_eq_ended_ok {rules : Rules κ σ τ ε} {s : State κ σ τ ε} {v : τ} {stats : Stats}
    (h : advance rules s = .ended (.ok v) stats) :
    s.steps < rules.budget ∧ turn rules.program rules.receive? s.tasks = .ending (.ok v) ∧
      stats = ⟨s.steps + 1, s.maxDepth⟩ := by
  rw [advance_eq_turn] at h
  split at h
  · cases h
  · rename_i within
    cases taken : turn rules.program rules.receive? s.tasks with
    | going tasks => simp [taken, Turn.counted] at h
    | ending result =>
        simp only [taken, Turn.counted, Phase.ended.injEq] at h
        exact ⟨Nat.lt_of_not_le within, congrArg Turn.ending h.1, h.2.symm⟩

/-- So many steps are so many turns, if the budget allows them.  No steps are allowed even by a
budget that is used up. -/
theorem repeatUnit_advance_eq_running_iff {rules : Rules κ σ τ ε} {s next : State κ σ τ ε} :
    repeatUnit (advance rules) k s = .running next ↔
      (k = 0 ∨ s.steps + k ≤ rules.budget) ∧
        Leads rules.program rules.receive? k s.tasks next.tasks ∧
        next.steps = s.steps + k ∧ next.maxDepth = s.maxDepth := by
  induction k generalizing s with
  | zero =>
      obtain ⟨tasks, steps, depth⟩ := s
      obtain ⟨tasks', steps', depth'⟩ := next
      simp only [repeatUnit, Phase.running.injEq, State.mk.injEq, true_or, true_and,
        Nat.add_zero]
      constructor
      · rintro ⟨rfl, rfl, rfl⟩
        exact ⟨.refl _, rfl, rfl⟩
      · rintro ⟨leads, rfl, rfl⟩
        cases leads
        exact ⟨rfl, rfl, rfl⟩
  -- One unit and then `k` of them, on either side of the equivalence.
  | succ k ih =>
      rw [repeatUnit]
      constructor
      · intro h
        cases first : advance rules s with
        | ended result stats => simp [first] at h
        | running middle =>
            simp only [first] at h
            obtain ⟨within, going, steps, depth⟩ := advance_eq_running_iff.mp first
            obtain ⟨within', leads, steps', depth'⟩ := ih.mp h
            exact ⟨.inr (by omega), .step going leads, by omega, depth'.trans depth⟩
      · rintro ⟨within, leads, steps, depth⟩
        cases leads with
        | @step _ _ middle _ going leads =>
            have first : advance rules s = .running ⟨middle, s.steps + 1, s.maxDepth⟩ :=
              advance_eq_running_iff.mpr ⟨by omega, going, rfl, rfl⟩
            rw [first]
            exact ih.mpr ⟨.inr (by dsimp only; omega), leads, by dsimp only; omega, depth⟩

/-! ### The laws -/

/-- The laws of runs with tasks inside of others.  `whole` and `rest` are schedulers
with batches of any two sizes. -/
structure Compositional (program : Program κ σ τ ε) (receive : σ → τ → Except ε σ) : Prop where
  /-- **A task is as good as its value.**  If it comes to `v` alone, and its caller
  takes `v`, then the run comes to what the callers alone come to, `count` steps
  later. -/
  value : ∀ {task caller : Task κ σ τ ε} {v : τ} {state : σ} {count : Nat},
    Yields program receive task (.ok v) count →
    task.receiver.getD receive caller.state v = .ok state →
    ∀ (outer : List (Task κ σ τ ε)) (whole rest : Scheduler),
      whole.budget = rest.budget + count →
      outcome (whole.runStack program receive (outer ++ [caller, task])) =
        delayed count (outcome (rest.runStack program receive (outer ++ [{ caller with state }])))
  /-- If its caller does not take the value, the run fails at this step. -/
  refused : ∀ {task caller : Task κ σ τ ε} {v : τ} {e : ε} {count : Nat},
    Yields program receive task (.ok v) count →
    task.receiver.getD receive caller.state v = .error e →
    ∀ (outer : List (Task κ σ τ ε)) (whole : Scheduler), count ≤ whole.budget →
      outcome (whole.runStack program receive (outer ++ [caller, task])) =
        (.error (.raised e), count)
  /-- A task that fails alone lets the run fail, with the same error at the same
  step. -/
  failure : ∀ {task : Task κ σ τ ε} {e : ε} {count : Nat},
    Yields program receive task (.error (.raised e)) count →
    ∀ (outer : List (Task κ σ τ ε)) (whole : Scheduler), count ≤ whole.budget →
      outcome (whole.runStack program receive (outer ++ [task])) = (.error (.raised e), count)
  /-- To call a task is to have it inside of its caller from the next step on. -/
  call : ∀ {task inner : Task κ σ τ ε} {state : σ},
    program task.routine task.state = .call state inner →
    ∀ (outer : List (Task κ σ τ ε)) (whole rest : Scheduler), whole.budget = rest.budget + 1 →
      outcome (whole.runStack program receive (outer ++ [task])) =
        delayed 1
          (outcome (rest.runStack program receive (outer ++ [{ task with state }, inner])))
  /-- **The tasks outside stay what they are** while the task is going.  It goes
  through the tasks that it would go through alone, and there is always one. -/
  outside : ∀ {task : Task κ σ τ ε} {budget count steps depth : Nat} {next : State κ σ τ ε},
    repeatUnit (advance ⟨program, budget, some receive⟩) count ⟨[task], steps, depth⟩ =
      .running next →
    next.tasks ≠ [] ∧ ∀ outer : List (Task κ σ τ ε),
      repeatUnit (advance ⟨program, budget, some receive⟩) count ⟨task :: outer, steps, depth⟩ =
        .running { next with tasks := next.tasks ++ outer }
  /-- **A value is delivered once, and to the caller.**  The step that would be the
  last one of the task alone leaves the caller with its new state as the innermost
  task, with the same tasks outside. -/
  delivery : ∀ {task caller : Task κ σ τ ε} {budget count steps depth : Nat}
    {last : State κ σ τ ε} {v : τ} {stats : Stats},
    repeatUnit (advance ⟨program, budget, some receive⟩) count ⟨[task], steps, depth⟩ =
      .running last →
    advance ⟨program, budget, some receive⟩ last = .ended (.ok v) stats →
    ∀ outer : List (Task κ σ τ ε),
      advance ⟨program, budget, some receive⟩ { last with tasks := last.tasks ++ caller :: outer } =
        match task.receiver.getD receive caller.state v with
        | .ok state => .running ⟨{ caller with state } :: outer, stats.steps, stats.maxDepth⟩
        | .error e => .ended (.error (.raised e)) stats
  /-- A run with a task in it is never short of one, and may call others. -/
  regular : ∀ {tasks : List (Task κ σ τ ε)}, tasks ≠ [] → ∀ s : Scheduler,
    Regular (s.runStack program receive tasks).1

/-- **The laws hold for all programs**, with any states, values and errors.  They are what makes a
called task a function call: it can be understood alone, and put in place by its value. -/
theorem compositional (program : Program κ σ τ ε) (receive : σ → τ → Except ε σ) :
    Compositional program receive where
  value yields taken outer whole rest budgets := by
    refine outcome_runStack_of_leads (by simp) (by simp) ?_ budgets
    simpa using (yields.ends (by simp)).hands taken outer.reverse
  refused yields refused outer whole within := by
    refine outcome_runStack_of_ends whole (by simp) ?_ within
    simpa using (yields.ends (by simp)).refused refused outer.reverse
  failure yields outer whole within := by
    refine outcome_runStack_of_ends whole (by simp) ?_ within
    simpa using (yields.ends (by simp)).inside outer.reverse
  call := by
    intro task inner state called outer whole rest budgets
    refine outcome_runStack_of_leads (by simp) (by simp) ?_ budgets
    refine .one ?_
    simp [turn, called]
  outside := by
    intro task budget count steps depth next alone
    obtain ⟨within, leads, counted, depth'⟩ := repeatUnit_advance_eq_running_iff.mp alone
    obtain ⟨⟨front, state, same⟩, beside⟩ := leads.inside (show [task] = [] ++ [task] from rfl)
    refine ⟨by simp [same], fun outer => ?_⟩
    exact repeatUnit_advance_eq_running_iff.mpr ⟨within, beside outer, counted, depth'⟩
  delivery := by
    intro task caller budget count steps depth last v stats alone final outer
    obtain ⟨-, leads, -⟩ := repeatUnit_advance_eq_running_iff.mp alone
    obtain ⟨⟨front, state, same⟩, -⟩ := leads.inside (show [task] = [] ++ [task] from rfl)
    obtain ⟨within, ending, rfl⟩ := advance_eq_ended_ok final
    rw [advance_eq_turn, if_neg (Nat.not_le.mpr within)]
    dsimp only at ending ⊢
    -- In the last turn the value goes outside instead.
    rw [same, turn_append, ← same, ending]
    simp only [Turn.inside, handBack]
    cases task.receiver.getD receive caller.state v <;> rfl
  regular := by
    intro tasks some_task s
    rcases s.ends_of_runStack program receive some_task with
      ⟨n, depth, result, -, ends, run⟩ | ⟨last, depth, -, run⟩
    · rw [run]
      exact ends.regular (by simpa using some_task)
    · rw [run]
      simp [Regular]

/-- A program that counts down to zero and is then done with `42`. -/
def countdown : Program Unit Nat Nat String := fun _ state =>
  match state with
  | 0 => .done 42
  | state + 1 => .proceed state

/-- A countdown from 2 inside of one from 1 makes it one from 43, three steps later. -/
theorem runStack_countdown_inside :
    Yields countdown (fun state v => .ok (state + v)) (.new () 2) (.ok 42) 3 ∧
      outcome ((Scheduler.new 4 1000).runStack countdown (fun state v => .ok (state + v))
        [.new () 1, .new () 2]) =
      delayed 3 (outcome ((Scheduler.new 2 997).runStack countdown
        (fun state v => .ok (state + v)) [.new () 43])) := by
  have alone : Yields countdown (fun state v => .ok (state + v)) (.new () 2) (.ok 42) 3 :=
    ⟨.new 4 3, outcome_runStack_of_ends _ (by simp) (.step rfl (.step rfl (.last rfl)))
      (Nat.le_refl 3)⟩
  have law := compositional countdown (fun state v => .ok (state + v))
  exact ⟨alone, law.value alone rfl [] (.new 4 1000) (.new 2 997) rfl⟩

end RuleEngine.Schedule
