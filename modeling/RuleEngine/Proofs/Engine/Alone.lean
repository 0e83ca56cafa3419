import RuleEngine.Proofs.Parse.Reachable
import RuleEngine.Proofs.Schedule.Depth

/-!
# Tasks that run alone

A scheduler runs a single task alone, or a stack of tasks.  The two differ where a
task calls another one: in a stack the called task is run first, but a task alone must
not call.  Everything else is the same, so a task that calls nothing within its budget
may as well be a stack of its own.

Results and steps are compared turn by turn, and the steps of a single task are
described by its routine only, without any run.  The nesting of batches needs no
comparison of turns: the attempts of a run determine it, and they are part of the
outcome.

The parser is a task that runs alone.  None of its actions calls.  So the two faults
that a scheduler has besides the end of its budget, a call that none was prepared for
and a stack without any task, are never among the errors of parsing.

## Main definitions

* `Proceeds` - so many steps of a routine, each of which proceeds.
* `CallFree` - none of the first steps of a task calls.

## Main statements

* `CallFree.ends_or_leads` - such a task takes the same turns in every run.
* `ExactDepth.unique` - the outcome of a run determines its nesting.
* `runAlone_eq_runStack`, `outcome_runAlone_of_call` - what running alone comes to,
  without a call and with one.
* `Parse.fault_of_stopped` - a scheduler stops parsing for the budget only.
* `alone_and_stacked` - all of it.
-/

namespace RuleEngine

namespace Schedule

variable {κ σ τ ε : Type}

/-! ### The steps of one task -/

section Steps

variable (program : Program κ σ τ ε) (routine : κ)

/-- So many steps of a routine lead from a state to another one, and each of them
proceeds. -/
inductive Proceeds : Nat → σ → σ → Prop
  | refl (state) : Proceeds 0 state state
  | step {n state next last} : program routine state = .proceed next →
      Proceeds n next last → Proceeds (n + 1) state last

/-- None of the first `count` steps of a task calls another task. -/
def CallFree (count : Nat) (state : σ) : Prop :=
  ∀ k < count, ∀ last, Proceeds program routine k state last →
    ∀ next inner, program routine last ≠ .call next inner

end Steps

variable {program program' : Program κ σ τ ε} {routine : κ} {state last next : σ}
variable {inner : Task κ σ τ ε} {k n : Nat}

/-- A task that proceeds takes as many turns in every run, whether a receiver waits for results or
not: such a step neither calls nor returns, so nothing of the run around it is looked at. -/
theorem Proceeds.leads (h : Proceeds program routine n state last)
    (receive? : Option (σ → τ → Except ε σ)) :
    Leads program receive? n [.new routine state] [.new routine last] := by
  induction h with
  | refl state => exact .refl _
  | @step n state next last proceeds _ ih =>
      refine .step ?_ ih
      simp only [turn, Task.new, proceeds]

/-- Programs that agree on the states on the way proceed alike.  What they do in other states has
no part in it, which is why a program may be changed behind a call. -/
theorem Proceeds.congr (h : Proceeds program routine n state last)
    (agree : ∀ j < n, ∀ middle, Proceeds program routine j state middle →
      program' routine middle = program routine middle) :
    Proceeds program' routine n state last := by
  induction h with
  | refl state => exact .refl state
  | @step n state next last proceeds _ ih =>
      refine .step ((agree 0 (Nat.succ_pos n) state (.refl state)).trans proceeds) ?_
      refine ih fun j less middle reached => ?_
      exact agree (j + 1) (Nat.succ_lt_succ less) middle (.step proceeds reached)

/-- A task proceeds for so many steps, or there is a first step that does not.  All statements
about tasks that run alone are split along this alternative. -/
theorem proceeds_or_stops (program : Program κ σ τ ε) (routine : κ) (n : Nat) (state : σ) :
    (∃ last, Proceeds program routine n state last) ∨
      ∃ k < n, ∃ last, Proceeds program routine k state last ∧
        ∀ next, program routine last ≠ .proceed next := by
  induction n generalizing state with
  | zero => exact .inl ⟨state, .refl state⟩
  | succ n ih =>
      by_cases proceeds : ∃ next, program routine state = .proceed next
      · obtain ⟨next, first⟩ := proceeds
        rcases ih next with ⟨last, reached⟩ | ⟨k, less, last, reached, stops⟩
        · exact .inl ⟨last, .step first reached⟩
        · exact .inr ⟨k + 1, Nat.succ_lt_succ less, last, .step first reached, stops⟩
      · exact .inr ⟨0, Nat.succ_pos n, state, .refl state, fun next h => proceeds ⟨next, h⟩⟩

/-- A step that neither proceeds nor calls ends every run of the task, and the result does not
depend on the receiver: the task is the last one of its stack, so none receives it. -/
theorem exists_ending (stops : ∀ next, program routine last ≠ .proceed next)
    (silent : ∀ next inner, program routine last ≠ .call next inner) :
    ∃ result, ∀ receive? : Option (σ → τ → Except ε σ),
      turn program receive? [.new routine last] = .ending result := by
  cases stepped : program routine last with
  | proceed next => exact absurd stepped (stops next)
  | call next inner => exact absurd stepped (silent next inner)
  | done v => exact ⟨.ok v, fun receive? => by simp only [turn, Task.new, stepped, handBack]⟩
  | fail e => exact ⟨.error (.raised e), fun receive? => by simp only [turn, Task.new, stepped]⟩

/-- **A task without calls takes the same turns in every run.** -/
theorem CallFree.ends_or_leads (h : CallFree program routine n state) :
    (∃ m ≤ n, ∃ result, ∀ receive?, Ends program receive? m [.new routine state] result) ∨
      ∃ last, ∀ receive?, Leads program receive? n [.new routine state] [.new routine last] := by
  rcases proceeds_or_stops program routine n state with
    ⟨last, reached⟩ | ⟨k, less, last, reached, stops⟩
  · exact .inr ⟨last, reached.leads⟩
  · obtain ⟨result, ending⟩ := exists_ending stops (h k less last reached)
    exact .inl ⟨k + 1, less, result, fun receive? => (reached.leads receive?).ends
      (.last (ending receive?))⟩

/-- A call ends the run of a task alone, with the fault that is kept for it.  The steps that led
there are counted, and so is the call. -/
theorem Proceeds.ends_of_call (h : Proceeds program routine k state last)
    (called : program routine last = .call next inner) :
    Ends program none (k + 1) [.new routine state] (.error (.fault .unexpectedCall)) := by
  refine (h.leads none).ends (.last ?_)
  simp only [turn, Task.new, called]

/-! ### Outcomes and nesting -/

/-- The attempts of a run are part of its outcome: they are its steps, and one more if the budget
was used up. -/
theorem attempts_congr {run run' : Except (Stop ε) τ × Stats} (same : outcome run = outcome run') :
    attempts run = attempts run' := by
  obtain ⟨result, steps, depth⟩ := run
  obtain ⟨result', steps', depth'⟩ := run'
  obtain ⟨rfl, rfl⟩ := Prod.ext_iff.mp same
  rfl

/-- **The outcome of a run determines its nesting.**  The depth is the least one at which batches
have room for the attempts, and these can be told from the outcome.  So runs of different programs
under different rules have the same counters as soon as they have the same outcome. -/
theorem ExactDepth.unique {rules rules' : Rules κ σ τ ε} {batch : Nat}
    {start start' : State κ σ τ ε} {run run' : Except (Stop ε) τ × Stats}
    (h : ExactDepth rules batch start run) (h' : ExactDepth rules' batch start' run')
    (same : outcome run = outcome run') : run = run' := by
  have least := h.least
  rw [attempts_congr same] at least
  have depths : run.2.maxDepth = run'.2.maxDepth := least.unique h'.least
  obtain ⟨result, steps, depth⟩ := run
  obtain ⟨result', steps', depth'⟩ := run'
  obtain ⟨rfl, rfl⟩ := Prod.ext_iff.mp same
  obtain rfl : depth = depth' := depths
  rfl

/-! ### Whole runs -/

variable (s : Scheduler)

/-- The outcome of a task alone whose turns end within the budget is the result of these turns,
with their number. -/
theorem outcome_runAlone_of_ends {result : Except (Stop ε) τ}
    (h : Ends program none n [.new routine state] result) (within : n ≤ s.budget) :
    outcome (s.runAlone program routine state) = (result, n) := by
  obtain ⟨depth, run⟩ := s.runAlone_of_ends h within
  rw [run]
  rfl

/-- **A task that calls nothing within its budget runs alone as it runs in a stack.** -/
theorem runAlone_eq_runStack (receive : σ → τ → Except ε σ)
    (h : CallFree program routine s.budget state) :
    s.runAlone program routine state = s.runStack program receive [.new routine state] := by
  have some_task : [Task.new routine state] ≠ ([] : List (Task κ σ τ ε)) := List.cons_ne_nil _ _
  have outcomes : outcome (s.runAlone program routine state) =
      outcome (s.runStack program receive [.new routine state]) := by
    rcases h.ends_or_leads with ⟨m, within, result, ends⟩ | ⟨last, leads⟩
    · rw [outcome_runAlone_of_ends s (ends none) within,
        outcome_runStack_of_ends s some_task (ends (some receive)) within]
    · obtain ⟨depth, run⟩ :=
        runLevels_of_leads ⟨program, s.budget, none⟩ s.batch_pos (leads none)
      obtain ⟨depth', run'⟩ := s.runStack_of_leads some_task (leads (some receive))
      rw [run', Scheduler.runAlone, run]
      rfl
  exact (exactDepth_runLevels _ s.batch_pos _).unique (exactDepth_runLevels _ s.batch_pos _)
    outcomes

/-- **A call of a task alone is the last of its steps.**  The run fails there with the fault for
unexpected calls, and the counter of steps includes the one that called. -/
theorem outcome_runAlone_of_call (h : Proceeds program routine k state last)
    (called : program routine last = .call next inner) (within : k < s.budget) :
    outcome (s.runAlone program routine state) = (.error (.fault .unexpectedCall), k + 1) :=
  outcome_runAlone_of_ends s (h.ends_of_call called) within

/-- What a program does behind the call has no part in the run.  Two programs that agree up to the
call have the same result and the same counters, however the called task would go on. -/
theorem runAlone_congr_of_call (h : Proceeds program routine k state last)
    (called : program routine last = .call next inner) (within : k < s.budget)
    (agree : ∀ j ≤ k, ∀ middle, Proceeds program routine j state middle →
      program' routine middle = program routine middle) :
    s.runAlone program' routine state = s.runAlone program routine state := by
  have proceeds := h.congr fun j less => agree j (Nat.le_of_lt less)
  have called' := (agree k (Nat.le_refl k) last h).trans called
  have outcomes := (outcome_runAlone_of_call s proceeds called' within).trans
    (outcome_runAlone_of_call s h called within).symm
  exact (exactDepth_runLevels _ s.batch_pos _).unique (exactDepth_runLevels _ s.batch_pos _)
    outcomes

end Schedule

open Schedule (Scheduler Program Task Proceeds CallFree)

/-! ### The parser -/

/-- A scheduler stops parsing for the budget only.  There is a task to run, so the fault for an
empty stack is excluded, and no action of the parser calls, so the fault for calls is excluded as
well. -/
theorem Parse.fault_of_stopped {registry : Registry} {s : Scheduler} {tokens : List Token}
    {e : ParseError} {fault : Schedule.Fault} (failed : registry.parseWith s tokens = .error e)
    (stopped : e.fault = .stopped fault) : fault = .budgetExceeded s.budget := by
  unfold Registry.parseWith at failed
  rcases s.ends_of_runAlone (fun _ => Configuration.step registry) () (.start tokens) with
    ⟨n, depth, result, -, ends, run⟩ | ⟨last, depth, -, run⟩
  · rw [run] at failed
    obtain ⟨last, -, ⟨parsed, -, rfl⟩ | ⟨e', hs, rfl⟩⟩ :=
      exists_last_of_ends (P := fun _ => True) (fun _ _ _ _ => trivial) ends trivial
    · cases failed
    · -- An action has failed, and none of them fails like a scheduler.
      cases failed
      exact absurd stopped ((Configuration.snapshot_of_step_eq_fail hs).1 fault)
  · rw [run] at failed
    cases failed
    cases stopped
    rfl

/-! ### Both ways to run a task -/

/-- **A task runs alone as in a stack, up to its first call.**  If no step that the
budget allows is a call, the results, the steps and the nesting are the same.  If one
is, the run fails at that step, and nothing that would come later matters.  The parser
never fails in this way, nor for want of a task. -/
theorem alone_and_stacked :
    (∀ {κ σ τ ε : Type} (s : Scheduler) (program : Program κ σ τ ε)
      (receive : σ → τ → Except ε σ) (routine : κ) (state : σ),
      CallFree program routine s.budget state →
      s.runAlone program routine state = s.runStack program receive [.new routine state]) ∧
    (∀ {κ σ τ ε : Type} (s : Scheduler) (program : Program κ σ τ ε) (routine : κ) (k : Nat)
      (state last next : σ) (inner : Task κ σ τ ε), Proceeds program routine k state last →
      program routine last = .call next inner → k < s.budget →
      Schedule.outcome (s.runAlone program routine state) =
        (.error (.fault .unexpectedCall), k + 1) ∧
      ∀ program' : Program κ σ τ ε,
        (∀ j ≤ k, ∀ middle, Proceeds program routine j state middle →
          program' routine middle = program routine middle) →
        s.runAlone program' routine state = s.runAlone program routine state) ∧
    ∀ (registry : Registry) (s : Scheduler) (tokens : List Token) (e : ParseError),
      registry.parseWith s tokens = .error e →
      e.fault ≠ .stopped .unexpectedCall ∧ e.fault ≠ .stopped .noTask := by
  refine ⟨fun s program receive routine state free => Schedule.runAlone_eq_runStack s receive free,
    fun s program routine k state last next inner h called within => ⟨?_, fun program' agree => ?_⟩,
    fun registry s tokens e failed => ⟨fun stopped => ?_, fun stopped => ?_⟩⟩
  · exact Schedule.outcome_runAlone_of_call s h called within
  · exact Schedule.runAlone_congr_of_call s h called within agree
  · cases Parse.fault_of_stopped failed stopped
  · cases Parse.fault_of_stopped failed stopped

/-- A program that counts down to zero and then calls a countdown from five. -/
def Schedule.calling : Program Unit Nat Nat String := fun _ state =>
  match state with
  | 0 => .call 0 (.new () 5)
  | state + 1 => .proceed state

/-- A countdown from 5 under a budget of five; a countdown from 2 that calls with its third
step; and the parser, for which there is no expression in nothing. -/
theorem alone_and_stacked_countdown :
    (Scheduler.new 4 5).runAlone Schedule.countdown () 5 =
        (Scheduler.new 4 5).runStack Schedule.countdown (fun state v => .ok (state + v))
          [.new () 5] ∧
      Schedule.outcome ((Scheduler.new 4 5).runAlone Schedule.calling () 2) =
        (.error (.fault .unexpectedCall), 3) ∧
      Registry.standard.parseWith (.new 4 1) [] = .error ⟨.malformed, .empty⟩ ∧
      ParseFault.malformed ≠ .stopped .noTask := by
  obtain ⟨same, called, parsed⟩ := alone_and_stacked
  have free : CallFree Schedule.countdown () 5 5 := by
    intro k _ last _ next inner
    cases last <;> exact nofun
  have counted : Proceeds Schedule.calling () 2 2 0 := .step rfl (.step rfl (.refl 0))
  have failed : Registry.standard.parseWith (.new 4 1) [] = .error ⟨.malformed, .empty⟩ := by
    have ends : Parse.Ends .standard 1 (.start []) (.error (.raised ⟨.malformed, .empty⟩)) :=
      Parse.ends_one_fail rfl
    obtain ⟨depth, run⟩ := (Scheduler.new 4 1).runAlone_of_ends ends (Nat.le_refl 1)
    rw [Registry.parseWith, run]
    rfl
  exact ⟨same (.new 4 5) _ _ () 5 free,
    (called (.new 4 5) _ () 2 2 0 0 (.new () 5) counted rfl (by decide)).1, failed,
    (parsed _ _ _ _ failed).2⟩

end RuleEngine
