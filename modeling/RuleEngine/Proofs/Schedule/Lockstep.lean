import RuleEngine.Proofs.Schedule.Turns

/-!
# Programs in lockstep

Two programs need not be equal for their runs to be.  It is enough that they take
the same turns wherever one of the runs gets to, and what it gets to may be
described by any property that its turns keep.

The conclusion is about whole runs with their batches: the result, the steps and
the nesting of batches are all the same.

The turns of two runs may also be related without being the same.  Then so are the
results, and the runs still take the same number of steps.

## Main definitions

* `Lockstep` - two programs agree where a property holds, and turns keep it.
* `Parallel` - a program takes related turns from related tasks.

## Main statements

* `Lockstep.runStack`, `Lockstep.runAlone` - the runs of both are equal.
* `Parallel.runAlone` - the runs from related tasks have related results.

## Design notes

**The property is chosen by the user.**  It has to hold of the tasks at the start and to
be kept by turns that go on, and it may mention the result, such as that the run comes
to a value.  So programs may be compared that differ in all runs but the ones of
interest.

**Parallel runs need not have equal states.**  They have related ones, and the relation
is again up to the user.  Only tasks that run alone are compared in this way, as there
is no caller whose state would have to be related, too.
-/

namespace RuleEngine.Schedule

variable {κ σ τ ε : Type}

/-- Both programs take the same turns wherever `P` holds, and it goes on to hold. -/
structure Lockstep (program program' : Program κ σ τ ε) (receive? : Option (σ → τ → Except ε σ))
    (P : List (Task κ σ τ ε) → Prop) : Prop where
  /-- The turns are the same. -/
  agree : ∀ tasks, P tasks → turn program receive? tasks = turn program' receive? tasks
  /-- A turn leads to tasks with the same property. -/
  keeps : ∀ tasks next, P tasks → turn program receive? tasks = .going next → P next

/-- Two units of work do the same where `P` holds, and leave it true. -/
def Agrees (P : List (Task κ σ τ ε) → Prop) (unit unit' : State κ σ τ ε → Phase κ σ τ ε) : Prop :=
  ∀ s, P s.tasks → unit s = unit' s ∧ ∀ next, unit s = .running next → P next.tasks

variable {program program' : Program κ σ τ ε} {receive? : Option (σ → τ → Except ε σ)}
variable {P : List (Task κ σ τ ε) → Prop}

/-- Units that agree still do so if each of them is repeated equally often. -/
theorem Agrees.repeatUnit {unit unit' : State κ σ τ ε → Phase κ σ τ ε} (h : Agrees P unit unit')
    (count : Nat) : Agrees P (repeatUnit unit count) (repeatUnit unit' count) := by
  induction count with
  | zero =>
      intro s hs
      refine ⟨rfl, fun next going => ?_⟩
      cases going
      exact hs
  | succ count ih =>
      intro s hs
      obtain ⟨same, keeps⟩ := h s hs
      simp only [Schedule.repeatUnit, ← same]
      cases first : unit s with
      | running middle => exact ih middle (keeps middle first)
      | ended result stats =>
          refine ⟨rfl, fun next going => ?_⟩
          cases going

namespace Lockstep

section Batches

variable (h : Lockstep program program' receive? P) (budget : Nat)

include h

/-- To advance is to take a turn, if the budget allows it.  The budgets are the same, so both runs
are cut off at the same step. -/
theorem advance : Agrees P (advance ⟨program, budget, receive?⟩)
    (advance ⟨program', budget, receive?⟩) := by
  intro s hs
  rw [advance_eq_turn, advance_eq_turn]
  dsimp only
  rw [← h.agree s.tasks hs]
  refine ⟨rfl, fun next going => ?_⟩
  split at going
  · cases going
  · cases first : turn program receive? s.tasks with
    | ending result =>
        rw [first] at going
        cases going
    | going tasks =>
        rw [first] at going
        cases going
        exact h.keeps s.tasks tasks hs first

/-- Batches of any level agree, since they are made of steps that do. -/
theorem runBatch (batch level depth : Nat) :
    Agrees P (runBatch ⟨program, budget, receive?⟩ batch level depth)
      (runBatch ⟨program', budget, receive?⟩ batch level depth) := by
  induction level generalizing depth with
  | zero => exact fun s hs => (h.advance budget).repeatUnit batch (s.enter (depth + 1)) hs
  | succ level ih => exact fun s hs => (ih (depth + 1)).repeatUnit batch (s.enter (depth + 1)) hs

/-- So do runs in batches of rising levels, with their counters. -/
theorem runLevels {batch : Nat} (hb : 0 < batch) (level : Nat) (s : State κ σ τ ε)
    (hs : P s.tasks) : runLevels ⟨program, budget, receive?⟩ batch hb level s =
      runLevels ⟨program', budget, receive?⟩ batch hb level s := by
  fun_induction Schedule.runLevels ⟨program, budget, receive?⟩ batch hb level s with
  | case1 level s result stats ended =>
      obtain ⟨same, -⟩ := h.runBatch budget batch level 0 s hs
      rw [Schedule.runLevels, ← same, ended]
  | case2 level s next going ih =>
      obtain ⟨same, keeps⟩ := h.runBatch budget batch level 0 s hs
      refine (ih (keeps next going)).trans (Eq.symm ?_)
      rw [Schedule.runLevels, ← same, going]

end Batches

/-- **Stacks of tasks run alike**, if their programs take the same turns on all tasks that are
ever reached. -/
theorem runStack {receive : σ → τ → Except ε σ} (h : Lockstep program program' (some receive) P)
    (s : Scheduler) {tasks : List (Task κ σ τ ε)} (start : P tasks.reverse) :
    s.runStack program receive tasks = s.runStack program' receive tasks := by
  cases tasks with
  | nil => rfl
  | cons task rest => exact h.runLevels s.budget s.batch_pos 0 (.start (task :: rest).reverse) start

/-- **So do tasks alone.** -/
theorem runAlone (h : Lockstep program program' none P) (s : Scheduler) {routine : κ} {state : σ}
    (start : P [Task.new routine state]) :
    s.runAlone program routine state = s.runAlone program' routine state :=
  h.runLevels s.budget s.batch_pos 0 (.start [Task.new routine state]) start

end Lockstep

/-! ### Related turns -/

/-- Related tasks take turns to related tasks, or end with related results. -/
structure Parallel (program : Program κ σ τ ε) (receive? : Option (σ → τ → Except ε σ))
    (R : List (Task κ σ τ ε) → List (Task κ σ τ ε) → Prop)
    (Q : Except (Stop ε) τ → Except (Stop ε) τ → Prop) : Prop where
  /-- Both go on. -/
  going : ∀ tasks tasks' next, R tasks tasks' → turn program receive? tasks = .going next →
    ∃ next', turn program receive? tasks' = .going next' ∧ R next next'
  /-- Both end. -/
  ending : ∀ tasks tasks' result, R tasks tasks' → turn program receive? tasks = .ending result →
    ∃ result', turn program receive? tasks' = .ending result' ∧ Q result result'

namespace Parallel

variable {R : List (Task κ σ τ ε) → List (Task κ σ τ ε) → Prop}
variable {Q : Except (Stop ε) τ → Except (Stop ε) τ → Prop}
variable {tasks tasks' last : List (Task κ σ τ ε)} {result : Except (Stop ε) τ} {n : Nat}

/-- Turns from related tasks lead to related tasks, one turn for each. -/
theorem leads (h : Parallel program receive? R Q) (related : R tasks tasks')
    (leads : Leads program receive? n tasks last) :
    ∃ last', Leads program receive? n tasks' last' ∧ R last last' := by
  induction leads generalizing tasks' with
  | refl => exact ⟨tasks', .refl tasks', related⟩
  | step going _ ih =>
      obtain ⟨next', going', further⟩ := h.going _ _ _ related going
      obtain ⟨last', leads', related'⟩ := ih further
      exact ⟨last', .step going' leads', related'⟩

/-- Runs of related tasks end after equally many turns, with related results. -/
theorem ends (h : Parallel program receive? R Q) (related : R tasks tasks')
    (ends : Ends program receive? n tasks result) :
    ∃ result', Ends program receive? n tasks' result' ∧ Q result result' := by
  induction ends generalizing tasks' with
  | last ending =>
      obtain ⟨result', ending', same⟩ := h.ending _ _ _ related ending
      exact ⟨result', .last ending', same⟩
  | step going _ ih =>
      obtain ⟨next', going', further⟩ := h.going _ _ _ related going
      obtain ⟨result', ends', same⟩ := ih further
      exact ⟨result', .step going' ends', same⟩

/-- **Tasks alone run in parallel.**  The results are related, or both runs exceed the
budget, and the steps are the same. -/
theorem runAlone (h : Parallel program none R Q) (s : Scheduler) {routine routine' : κ}
    {state state' : σ} (related : R [Task.new routine state] [Task.new routine' state']) :
    ((s.runAlone program routine state).1 = .error (.fault (.budgetExceeded s.budget)) ∧
        (s.runAlone program routine' state').1 = .error (.fault (.budgetExceeded s.budget)) ∨
      Q (s.runAlone program routine state).1 (s.runAlone program routine' state').1) ∧
    (s.runAlone program routine state).2.steps = (s.runAlone program routine' state').2.steps := by
  rcases s.ends_of_runAlone program routine state with
    ⟨n, depth, result, within, ends, run⟩ | ⟨last, depth, leads, run⟩
  · obtain ⟨result', ends', same⟩ := h.ends related ends
    obtain ⟨depth', run'⟩ := s.runAlone_of_ends ends' within
    rw [run, run']
    exact ⟨.inr same, rfl⟩
  · obtain ⟨last', leads', -⟩ := h.leads related leads
    obtain ⟨depth', run'⟩ := runLevels_of_leads ⟨program, s.budget, none⟩ s.batch_pos leads'
    rw [run, show s.runAlone program routine' state' = _ from run']
    exact ⟨.inl ⟨rfl, rfl⟩, rfl⟩

end Parallel

end RuleEngine.Schedule
