import RuleEngine.Proofs.Schedule.Nesting

/-!
# Where the tasks of a run come from

The tasks that stand in a row were called one by the other, each by the one outside
of it, and the outermost is the one that the run began with.  While a task stands
there, the tasks outside of it wait, and the run is what the run of this task alone
would be.  So what is to be known of a task among others may be shown of the task
alone.

Alone, a task works as long as it is the innermost one.  When it has called another
one, it waits; and then it works again, with what the receiver of the called task makes
of its state.

## Main definitions

* `Enters`, `Origin` - how a task got into a run, and what has become of it.
* `Steady` - predicates for states that a task keeps to while it works and while it
  waits.
* `Keeps` - they hold of the last task in a row.

## Main statements

* `Leads.exists_origin` - all tasks that a run gets to have an origin in it.
* `Steady.keeps` - a task that begins in a state to work in keeps to the predicates.
-/

namespace RuleEngine.Schedule

variable {κ σ τ ε : Type} {program : Program κ σ τ ε} {receive : σ → τ → Except ε σ}
variable {start first task : Task κ σ τ ε} {tasks inner outer : List (Task κ σ τ ε)} {n : Nat}

/-! ### Origins -/

/-- How a task gets into a run from `start`: the next task outside calls it, or the run
begins with it. -/
def Enters (program : Program κ σ τ ε) (start first : Task κ σ τ ε) :
    List (Task κ σ τ ε) → Prop
  | [] => first = start
  | caller :: _ => ∃ state, program caller.routine state = .call caller.state first

/-- The origin of `task`, which stands between the tasks `inner` and `outer` in a run
from `start`: it got into the run as `first`. -/
structure Origin (program : Program κ σ τ ε) (receive : σ → τ → Except ε σ)
    (start first : Task κ σ τ ε) (inner : List (Task κ σ τ ε)) (task : Task κ σ τ ε)
    (outer : List (Task κ σ τ ε)) : Prop where
  /-- The task outside has called it. -/
  enters : Enters program start first outer
  /-- The tasks outside were then what they are now. -/
  before : ∃ k, Leads program (some receive) k [start] (first :: outer)
  /-- Since then the run has been the run of this task alone. -/
  since : ∃ m, Leads program (some receive) m [first] (inner ++ [task])

/-- A task stays what it is but for its state: the routine and the receiver are those with which
it was called. -/
theorem Origin.eq_withState (h : Origin program receive start first inner task outer) :
    { task with state := first.state } = first := by
  obtain ⟨m, leads⟩ := h.since
  obtain ⟨⟨front, state, last⟩, -⟩ := leads.inside (show [first] = [] ++ [first] from rfl)
  obtain rfl := List.singleton_inj.mp (List.append_inj_right' last rfl)
  rfl

/-- A task that is there after a turn was there before, and the turn was one of it and the tasks
inside, or it was called by this turn.  There is no third way for a task to come onto a stack. -/
theorem exists_of_turn_eq_going_append
    (h : turn program (some receive) tasks = .going (inner ++ task :: outer)) :
    (∃ inner' task', tasks = inner' ++ task' :: outer ∧
      turn program (some receive) (inner' ++ [task']) = .going (inner ++ [task])) ∨
    inner = [] ∧ Enters program start task outer := by
  cases tasks with
  | nil => cases h
  | cons t rest =>
      rcases exists_of_turn_eq_going h with
        ⟨state, stepped, next⟩ | ⟨state, called, stepped, next⟩ |
        ⟨v, caller, rest', state, stepped, rfl, taken, next⟩
      · -- The innermost task is the one that we look at, or it is inside of that.
        left
        cases inner with
        | nil =>
            obtain ⟨rfl, rfl⟩ := List.cons.inj next
            exact ⟨[], t, rfl, by simp [turn, stepped]⟩
        | cons i inner =>
            obtain ⟨rfl, rfl⟩ := List.cons.inj next
            exact ⟨t :: inner, task, rfl, by simp [turn, stepped]⟩
      · -- A call: the called task is the one that we look at, or it is inside of that.
        cases inner with
        | nil =>
            obtain ⟨rfl, rfl⟩ := List.cons.inj next
            exact .inr ⟨rfl, t.state, stepped⟩
        | cons i inner =>
            left
            obtain ⟨rfl, below⟩ := List.cons.inj next
            cases inner with
            | nil =>
                obtain ⟨rfl, rfl⟩ := List.cons.inj below
                exact ⟨[], t, rfl, by simp [turn, stepped]⟩
            | cons i inner =>
                obtain ⟨rfl, rfl⟩ := List.cons.inj below
                exact ⟨t :: inner, task, rfl, by simp [turn, stepped]⟩
      · left
        cases inner with
        | nil =>
            obtain ⟨rfl, rfl⟩ := List.cons.inj next
            exact ⟨[t], caller, rfl, by simp [turn, stepped, handBack, taken]⟩
        | cons i inner =>
            obtain ⟨rfl, rfl⟩ := List.cons.inj next
            exact ⟨t :: caller :: inner, task, rfl, by simp [turn, stepped, handBack, taken]⟩

/-- **All tasks that a run gets to have an origin in it**: the moment when they were called, and
the turns that they and the tasks inside of them have taken since. -/
theorem Leads.exists_origin
    (h : Leads program (some receive) n [start] (inner ++ task :: outer)) :
    ∃ first, Origin program receive start first inner task outer := by
  -- The invariant also says that the tasks are led to, since a called task enters there.
  let Explained (tasks : List (Task κ σ τ ε)) : Prop :=
    (∃ k, Leads program (some receive) k [start] tasks) ∧
      ∀ inner task outer, tasks = inner ++ task :: outer →
        ∃ first, Origin program receive start first inner task outer
  have begins : Explained [start] := by
    refine ⟨⟨0, .refl _⟩, fun inner task outer same => ?_⟩
    cases inner with
    | nil =>
        obtain ⟨rfl, rfl⟩ := List.cons.inj same
        exact ⟨start, rfl, ⟨0, .refl _⟩, ⟨0, .refl _⟩⟩
    | cons i inner => simp at same
  have keeps : ∀ tasks next, Explained tasks → turn program (some receive) tasks = .going next →
      Explained next := by
    rintro tasks next ⟨⟨k, leads⟩, explained⟩ going
    refine ⟨⟨k + 1, leads.trans (.one going)⟩, ?_⟩
    rintro inner task outer rfl
    rcases exists_of_turn_eq_going_append going with
      ⟨inner', task', rfl, alone⟩ | ⟨rfl, enters⟩
    · obtain ⟨first, enters, before, m, since⟩ := explained inner' task' outer rfl
      exact ⟨first, enters, before, m + 1, since.trans (.one alone)⟩
    · exact ⟨task, enters, ⟨k + 1, leads.trans (.one going)⟩, ⟨0, .refl _⟩⟩
  exact (h.preserves keeps begins).2 inner task outer rfl

/-! ### What a task keeps to -/

/-- The states that a task works in, and those that it waits in for a called task with
some receiver, if it never leaves them but by its end. -/
structure Steady (program : Program κ σ τ ε) (receive : σ → τ → Except ε σ)
    (Work : σ → Prop) (Wait : Option (σ → τ → Except ε σ) → σ → Prop) : Prop where
  /-- It goes on working, -/
  proceed : ∀ {routine state next}, Work state → program routine state = .proceed next → Work next
  /-- or it waits for a task that it has called, -/
  call : ∀ {routine state next callee}, Work state →
    program routine state = .call next callee → Wait callee.receiver next
  /-- and works again when it has taken the result. -/
  taken : ∀ {receiver state v next}, Wait receiver state →
    receiver.getD receive state v = .ok next → Work next

/-- The last of some tasks is the only one and works, or it waits for the one before. -/
inductive Keeps (Work : σ → Prop) (Wait : Option (σ → τ → Except ε σ) → σ → Prop) :
    List (Task κ σ τ ε) → Prop
  | work {task : Task κ σ τ ε} : Work task.state → Keeps Work Wait [task]
  | wait {front : List (Task κ σ τ ε)} {callee task : Task κ σ τ ε} :
      Wait callee.receiver task.state →
      Keeps Work Wait (front ++ [callee] ++ [task])

variable {Work : σ → Prop} {Wait : Option (σ → τ → Except ε σ) → σ → Prop}

/-- A task with none inside works, and any other waits for the one inside of it. -/
theorem Keeps.work_or_wait (h : Keeps Work Wait (inner ++ [task])) :
    (inner = [] ∧ Work task.state) ∨ (inner ≠ [] ∧ ∃ receiver, Wait receiver task.state) := by
  generalize same : inner ++ [task] = tasks at h
  cases h with
  | @work last working =>
      have same' : inner ++ [task] = [] ++ [last] := same
      obtain rfl := List.singleton_inj.mp (List.append_inj_right' same' rfl)
      exact .inl ⟨List.append_inj_left' same' rfl, working⟩
  | @wait front callee last waiting =>
      obtain rfl := List.singleton_inj.mp (List.append_inj_right' same rfl)
      refine .inr ⟨?_, _, waiting⟩
      rw [List.append_inj_left' same rfl]
      exact List.append_ne_nil_of_right_ne_nil front (List.cons_ne_nil callee [])

/-- A turn of a task and those inside of it keeps to the predicates: it is one of the task itself,
one inside of it, or one that hands a value to it. -/
theorem Steady.keeps_of_turn (steady : Steady program receive Work Wait)
    {next : List (Task κ σ τ ε)} (h : Keeps Work Wait tasks)
    (going : turn program (some receive) tasks = .going next) : Keeps Work Wait next := by
  cases h with
  | @work task working =>
      rcases exists_of_turn_eq_going going with
        ⟨state, stepped, rfl⟩ | ⟨state, callee, stepped, rfl⟩ |
        ⟨v, caller, rest, state, -, outside, -⟩
      · exact .work (steady.proceed working stepped)
      · show Keeps Work Wait ([] ++ [callee] ++ [{ task with state }])
        exact .wait (steady.call working stepped)
      · cases outside
  | @wait front callee task waiting =>
      -- The turn is one of the called task, which stays the last one of its own or is done.
      rw [turn_append] at going
      cases alone : turn program (some receive) (front ++ [callee]) with
      | going tasks =>
          obtain ⟨front', state, rfl⟩ := exists_base_of_turn alone
          rw [alone] at going
          obtain rfl := Turn.going.inj going
          exact .wait waiting
      | ending result =>
          rw [alone] at going
          cases result with
          | error why => cases going
          | ok v =>
              simp only [Turn.inside, handBack] at going
              cases taken : callee.receiver.getD receive task.state v with
              | error e => simp [taken] at going
              | ok state =>
                  simp only [taken, Turn.going.injEq] at going
                  obtain rfl := going
                  exact .work (steady.taken waiting taken)

/-- **A task that begins in a state to work in keeps to the predicates**, whatever the
tasks that it calls do. -/
theorem Steady.keeps (steady : Steady program receive Work Wait) (begins : Work first.state)
    (h : Leads program (some receive) n [first] tasks) : Keeps Work Wait tasks :=
  h.preserves (fun _ _ kept going => steady.keeps_of_turn kept going) (.work begins)

end RuleEngine.Schedule
