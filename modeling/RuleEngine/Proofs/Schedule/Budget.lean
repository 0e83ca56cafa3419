import RuleEngine.Proofs.Schedule.Turns

/-!
# Runs without batches

A run takes its steps in batches of rising level.  The same steps can be taken
in one loop, which goes on until some step ends the run.  The batches are there
for the native stack alone: a run comes to the result of the loop, after as many
steps.  What is left of a run without them is its budget, and this module also
says how the outcome depends on that.

## Main definitions

* `runSteps` - the loop.
* `outcome` - the result of a run and the number of its steps; the depth of its
  batches is left out.
* `runBatches` - the first batches of a run, so many of them.
* `ExactBudget` - a run needs a budget of exactly the steps that it takes.

## Main statements

* `Phase.Follows.unique` - turns come to one outcome however they are grouped.
* `outcome_runLevels` - hence batches come to the outcome of the loop.
* `exists_runBatches` - one of the batches ends the run.
* `exactBudget_runLevels` - runs have exact budgets.

## Design notes

**Exactness is a statement about all budgets.**  A single run shows whether its budget
was enough.  Here the runs under all budgets are compared: there is one number of steps
from which on all of them have the same outcome, and below which all of them exceed
their budgets, or else there is no such number and every budget is exceeded.
-/

namespace RuleEngine.Schedule

variable {κ σ τ ε : Type}

/-! ### The loop -/

/-- One step after another until the run is over. -/
def runSteps (rules : Rules κ σ τ ε) (s : State κ σ τ ε) : Except (Stop ε) τ × Stats :=
  match h : advance rules s with
  | .ended result stats => (result, stats)
  | .running next =>
    -- The step has used up some of the budget.
    have _used := steps_of_advance h
    runSteps rules next
termination_by rules.budget - s.steps

/-- The result of a run and the number of its steps. -/
def outcome (run : Except (Stop ε) τ × Stats) : Except (Stop ε) τ × Nat :=
  (run.1, run.2.steps)

/-- The loop that takes one step after another takes turns, as batches do. -/
theorem follows_runSteps (rules : Rules κ σ τ ε) (s : State κ σ τ ε) :
    (Phase.ended (runSteps rules s).1 (runSteps rules s).2).Follows rules s := by
  fun_induction runSteps rules s with
  | case1 s result stats h =>
      have := follows_advance rules s
      rwa [h] at this
  | case2 s next h _ ih =>
      have := follows_advance rules s
      rw [h] at this
      exact this.trans ih

section Unique

variable {rules : Rules κ σ τ ε} {s : State κ σ τ ε}
variable {result result' : Except (Stop ε) τ} {stats stats' : Stats}

/-- A run that ends within the budget does not use it up before.  The two ways out of a run
exclude each other. -/
theorem lt_of_ends_of_leads {program : Program κ σ τ ε} {receive? : Option (σ → τ → Except ε σ)}
    {tasks last : List (Task κ σ τ ε)} {m n : Nat} (ends : Ends program receive? n tasks result)
    (leads : Leads program receive? m tasks last) : m < n := by
  obtain ⟨k, rfl, rest⟩ := ends.after leads
  have := rest.pos
  omega

/-- **Turns come to one outcome, however they are grouped.**  Whatever takes the turns of a run
comes to its result after its number of steps, which is all that the loop and the batches have in
common. -/
theorem Phase.Follows.unique (h : (Phase.ended result stats).Follows rules s)
    (h' : (Phase.ended result' stats').Follows rules s) :
    result = result' ∧ stats.steps = stats'.steps := by
  rcases h with ⟨n, ends, steps, within⟩ | ⟨n, last, leads, steps, beyond, failed⟩
  · rcases h' with ⟨n', ends', steps', -⟩ | ⟨n', last', leads', steps', beyond', -⟩
    · obtain ⟨rfl, rfl⟩ := ends.unique ends'
      exact ⟨rfl, by omega⟩
    · have := lt_of_ends_of_leads ends leads'
      omega
  · rcases h' with ⟨n', ends', steps', within'⟩ | ⟨n', last', leads', steps', beyond', failed'⟩
    · have := lt_of_ends_of_leads ends' leads
      omega
    · exact ⟨failed.trans failed'.symm, by omega⟩

end Unique

/-! ### The batches -/

/-- Batches of any size come to the outcome of the loop. -/
theorem outcome_runLevels (rules : Rules κ σ τ ε) {batch : Nat} (hb : 0 < batch) (level : Nat)
    (s : State κ σ τ ε) :
    outcome (runLevels rules batch hb level s) = outcome (runSteps rules s) := by
  obtain ⟨results, steps⟩ :=
    (follows_runLevels rules batch hb level s).unique (follows_runSteps rules s)
  exact Prod.ext results steps

/-- So many batches, of level `level`, `level + 1`, … -/
def runBatches (rules : Rules κ σ τ ε) (batch : Nat) :
    (count level : Nat) → State κ σ τ ε → Phase κ σ τ ε
  | 0, _, s => .running s
  | count + 1, level, s =>
    match runBatch rules batch level 0 s with
    | .running next => runBatches rules batch count (level + 1) next
    | .ended result stats => .ended result stats

/-- **One of the batches ends the run.**  Each one that does not has used up some of the budget,
so there are no more of them than steps that the budget allows. -/
theorem exists_runBatches (rules : Rules κ σ τ ε) {batch : Nat} (hb : 0 < batch) (level : Nat)
    (s : State κ σ τ ε) :
    ∃ count ≤ rules.budget - s.steps + 1, runBatches rules batch count level s =
      .ended (runLevels rules batch hb level s).1 (runLevels rules batch hb level s).2 := by
  fun_induction runLevels rules batch hb level s with
  | case1 level s result stats h =>
      refine ⟨1, by omega, ?_⟩
      rw [runBatches, h]
  | case2 level s next h ih =>
      obtain ⟨count, bound, ended⟩ := ih
      have := steps_of_runBatch hb h
      refine ⟨count + 1, by omega, ?_⟩
      rw [runBatches, h]
      exact ended

/-! ### Budgets -/

/-- What runs under different budgets have to do with each other.  `run budget` is
the result under a budget together with the number of steps, and `exceeded budget`
the error of a run that has used up its budget. -/
structure ExactBudget {α ε : Type} (exceeded : Nat → ε) (run : Nat → Except ε α × Nat) :
    Prop where
  /-- A run that comes to anything else stays within its budget.  It is the same
  under each budget that allows its steps, and exceeds all others. -/
  within : ∀ budget, (∀ b, (run budget).1 ≠ .error (exceeded b)) →
    (run budget).2 ≤ budget ∧
    (∀ budget', (run budget).2 ≤ budget' → run budget' = run budget) ∧
    ∀ budget', budget' < (run budget).2 → run budget' = (.error (exceeded budget'), budget')
  /-- A run that exceeds its budget has taken all of its steps, and exceeds every
  smaller budget. -/
  beyond : ∀ budget b, (run budget).1 = .error (exceeded b) →
    run budget = (.error (exceeded budget), budget) ∧
    ∀ budget', budget' < budget → run budget' = (.error (exceeded budget'), budget')

section Exact

variable {α : Type} {exceeded : Nat → ε} {run : Nat → Except ε α × Nat}

/-- A run that is over after `n` steps has `n` as its exact budget. -/
theorem ExactBudget.of_ended {result : Except ε α} {n : Nat}
    (regular : ∀ b, result ≠ .error (exceeded b))
    (enough : ∀ budget, n ≤ budget → run budget = (result, n))
    (short : ∀ budget, budget < n → run budget = (.error (exceeded budget), budget)) :
    ExactBudget exceeded run where
  within budget ended := by
    have allowed : n ≤ budget := by
      refine Nat.le_of_not_lt fun less => ?_
      exact ended budget (by rw [short budget less])
    rw [enough budget allowed]
    exact ⟨allowed, enough, short⟩
  beyond budget b failed := by
    have less : budget < n := by
      refine Nat.lt_of_not_le fun allowed => ?_
      rw [enough budget allowed] at failed
      exact regular b failed
    exact ⟨short budget less, fun budget' smaller => short budget' (Nat.lt_trans smaller less)⟩

/-- A run that exceeds every budget has none that would be enough. -/
theorem ExactBudget.of_endless
    (always : ∀ budget, run budget = (.error (exceeded budget), budget)) :
    ExactBudget exceeded run where
  within budget ended := absurd (by rw [always]) (ended budget)
  beyond budget _ _ := ⟨always budget, fun budget' _ => always budget'⟩

end Exact

variable {program : Program κ σ τ ε} {receive? : Option (σ → τ → Except ε σ)}
variable {tasks : List (Task κ σ τ ε)} {result : Except (Stop ε) τ} {n : Nat}

/-- No turn exceeds a budget, as turns know of none. -/
theorem turn_ne_budgetExceeded (b : Nat) :
    turn program receive? tasks ≠ .ending (.error (.fault (.budgetExceeded b))) := by
  intro h
  cases tasks with
  | nil => simp [turn] at h
  | cons task outer =>
      rw [turn] at h
      split at h
      · cases h
      · split at h <;> simp at h
      · unfold handBack at h
        split at h
        · simp at h
        · simp at h
        · split at h <;> simp at h
      · simp at h

/-- So the result of a run that ends is never the end of a budget. -/
theorem Ends.ne_budgetExceeded (h : Ends program receive? n tasks result) (b : Nat) :
    result ≠ .error (.fault (.budgetExceeded b)) := by
  rintro rfl
  obtain ⟨last, -, ending⟩ := h.exists_last (P := fun _ => True) (fun _ _ _ _ => trivial) trivial
  exact turn_ne_budgetExceeded b ending

/-- A run that ends goes on until its last turn.  With any smaller budget it is cut off there. -/
theorem Ends.leads_of_lt {m : Nat} (h : Ends program receive? n tasks result) (less : m < n) :
    ∃ last, Leads program receive? m tasks last := by
  rcases ends_or_leads program receive? m tasks with ⟨k, result', bound, ends⟩ | leads
  · have := (h.unique ends).1
    omega
  · exact leads

/-- **Runs have exact budgets**, whatever their batches are, and whether they succeed or fail. -/
theorem exactBudget_runLevels (program : Program κ σ τ ε)
    (receive? : Option (σ → τ → Except ε σ)) {batch : Nat} (hb : 0 < batch)
    (tasks : List (Task κ σ τ ε)) :
    ExactBudget (fun budget => .fault (.budgetExceeded budget)) fun budget =>
      outcome (runLevels ⟨program, budget, receive?⟩ batch hb 0 (.start tasks)) := by
  have exceeds : ∀ budget, (∃ last, Leads program receive? budget tasks last) →
      outcome (runLevels ⟨program, budget, receive?⟩ batch hb 0 (.start tasks)) =
        (.error (.fault (.budgetExceeded budget)), budget) := by
    rintro budget ⟨last, leads⟩
    obtain ⟨depth, run⟩ := runLevels_of_leads ⟨program, budget, receive?⟩ hb leads
    rw [run]
    rfl
  by_cases ended : ∃ n result, Ends program receive? n tasks result
  · obtain ⟨n, result, ends⟩ := ended
    refine .of_ended (n := n) ends.ne_budgetExceeded (fun budget allowed => ?_)
      fun budget less => ?_
    · obtain ⟨depth, run⟩ := runLevels_of_ends ⟨program, budget, receive?⟩ hb ends allowed
      rw [run]
      rfl
    · exact exceeds budget (ends.leads_of_lt less)
  · refine .of_endless fun budget => exceeds budget ?_
    rcases ends_or_leads program receive? budget tasks with ⟨n, result, -, ends⟩ | leads
    · exact absurd ⟨n, result, ends⟩ ended
    · exact leads

end RuleEngine.Schedule
