import RuleEngine.Proofs.Parse.Reachable

/-!
# How much there is to parse

An action takes a token or reduces an operator, and an operator that is taken is
reduced at most once.  So a configuration has an effort before it: an action for
each token that is left, another one for each operator among these, and one for
each operator on the stack.  Every action lowers it by exactly one, whatever the
desugarings answer, and whether or not the tokens form an expression.

Operators do not get lost either.  Those that have become nodes, those on the
stack and those among the tokens that are left are as many as there were in the
beginning.

Two measures are enough, and both are read off a configuration without running it.  The
first one bounds the run and, when it accepts, gives its length, so the exact number of
steps is known before the parser is started.  The second one gives the size of the pool.
Neither depends on what a desugaring answers, and they hold of tokens that form no
expression just as well: such a run is over earlier.

## Main definitions

* `waiting` - the number of operators on a stack.
* `Configuration.effort` - the actions that are left at most.
* `Configuration.operatorCount` - the operators, wherever they are.

## Main statements

* `Configuration.counts_of_step`, `Configuration.counts_of_leads` - what an action
  does to both, and what so many actions do.
* `Configuration.bounded_of_ends` - a run is over when its effort is used up, if not
  before, and a run that accepts has used up all of it.
* `parse_steps_exact` - so parsing takes a known number of steps.
-/

namespace RuleEngine.Parse

open Schedule (Task Stop Stats Scheduler)

/-- Whether a symbol is an operator. -/
def Symbol.isOperator : Symbol → Bool
  | operator _ _ => true
  | _ => false

/-- The number of operators on a stack. -/
def waiting (stack : List Symbol) : Nat :=
  stack.countP Symbol.isOperator

@[simp] theorem waiting_nil : waiting [] = 0 := rfl

@[simp] theorem waiting_operator (name : String) (fixity : Fixity) (stack : List Symbol) :
    waiting (.operator name fixity :: stack) = waiting stack + 1 :=
  List.countP_cons_of_pos rfl

@[simp] theorem waiting_operand (x : Operand) (stack : List Symbol) :
    waiting (.operand x :: stack) = waiting stack :=
  List.countP_cons_of_neg (by simp [Symbol.isOperator])

@[simp] theorem waiting_openParen (stack : List Symbol) :
    waiting (.openParen :: stack) = waiting stack :=
  List.countP_cons_of_neg (by simp [Symbol.isOperator])

@[simp] theorem waiting_openBrace (stack : List Symbol) :
    waiting (.openBrace :: stack) = waiting stack :=
  List.countP_cons_of_neg (by simp [Symbol.isOperator])

/-- A reduction takes one operator away: its own.  The operands that it takes besides are no
operators. -/
theorem waiting_of_reduction? {stack : List Symbol} {r : Reduction}
    (found : reduction? stack = some r) : waiting stack = waiting r.below + 1 := by
  unfold reduction? at found
  split at found <;> cases found <;> simp

@[simp] theorem operators_literal (text : String) (rest : List Token) :
    operators (.literal text :: rest) = operators rest :=
  List.countP_cons_of_neg (by simp [Token.isOperator])

@[simp] theorem operators_operator (name : String) (fixity : Fixity) (rest : List Token) :
    operators (.operator name fixity :: rest) = operators rest + 1 :=
  List.countP_cons_of_pos rfl

@[simp] theorem operators_bracket (b : Bracket) (rest : List Token) :
    operators (.bracket b :: rest) = operators rest :=
  List.countP_cons_of_neg (by simp [Token.isOperator])

namespace Configuration

/-- The actions that are left at most: one for each token, one for each operator
among these, and one for each operator on the stack. -/
def effort (c : Configuration) : Nat :=
  actions c.remaining + waiting c.stack

/-- The operators that have become nodes, that are on the stack, and that are still
to be taken. -/
def operatorCount (c : Configuration) : Nat :=
  c.pool.size + waiting c.stack + operators c.remaining

/-- Before parsing, the effort is an action for each token and another one for each operator. -/
@[simp] theorem effort_start (tokens : List Token) : (start tokens).effort = actions tokens := rfl

@[simp] theorem operatorCount_start (tokens : List Token) :
    (start tokens).operatorCount = operators tokens := by
  simp [operatorCount, start]

variable {registry : Registry} {c c' : Configuration} {n : Nat}

/-! ### One action -/

/-- To take a token lowers the effort by one; an operator among the tokens becomes one on the
stack, so its own reduction is still ahead. -/
theorem counts_of_shift {token : Token} {rest : List Token} (left : c.remaining = token :: rest)
    (h : c.shift token rest = .proceed c') :
    c.effort = c'.effort + 1 ∧ c'.operatorCount = c.operatorCount := by
  obtain ⟨remaining, stack, pool⟩ := c
  obtain rfl : remaining = token :: rest := left
  cases token with
  | literal text =>
      cases h
      simp only [effort, operatorCount, actions_literal, operators_literal, waiting_operand,
        and_true]
      omega
  | operator name fixity =>
      cases h
      simp only [effort, operatorCount, actions_operator, operators_operator, waiting_operator]
      omega
  | bracket b =>
      cases b with
      | openParen | openBrace =>
          cases h
          simp only [effort, operatorCount, actions_bracket, operators_bracket,
            waiting_openParen, waiting_openBrace, and_true]
          omega
      | closeParen | closeBrace =>
          simp only [shift] at h
          -- A bracket can be closed only if there is an operand on top of the opening one.
          split at h
          · cases h
            simp only [effort, operatorCount, actions_bracket, operators_bracket,
              waiting_operand, waiting_openParen, waiting_openBrace, and_true]
            omega
          · cases h

/-- A reduction turns an operator on the stack into a node.  The node may be any that the
desugaring answers with, but it is one node. -/
theorem counts_of_reduce {r : Reduction} (found : reduction? c.stack = some r)
    (h : c.reduce registry r = .proceed c') :
    c.effort = c'.effort + 1 ∧ c'.operatorCount = c.operatorCount := by
  obtain ⟨node, -, rfl⟩ := exists_node_of_reduce h
  have fewer := waiting_of_reduction? found
  simp only [effort, operatorCount, replace, waiting_operand, Pool.size_push]
  omega

/-- **An action lowers the effort by exactly one** and loses no operator.  Both kinds of actions
do, so there is no need to know in which order they come. -/
theorem counts_of_step (h : c.step registry = .proceed c') :
    c.effort = c'.effort + 1 ∧ c'.operatorCount = c.operatorCount := by
  rcases step_eq_proceed h with ⟨r, found, reduced⟩ | ⟨token, rest, left, shifted⟩
  · exact counts_of_reduce found reduced
  · exact counts_of_shift left shifted

/-- The parser is done when no effort is left and all operators have become nodes: the only thing
on its stack is an operand then. -/
theorem counts_of_step_eq_done {parsed : Parsed} (h : c.step registry = .done parsed) :
    c.effort = 0 ∧ c.operatorCount = parsed.pool.size := by
  obtain rfl := eq_of_step_eq_done h
  exact ⟨rfl, rfl⟩

/-! ### Whole runs -/

/-- So many actions lower the effort by as much, and the number of operators is the same after
them. -/
theorem counts_of_leads {tasks : List (Task Unit Configuration Parsed ParseError)}
    (h : Schedule.Leads (fun _ => Configuration.step registry) none n (alone c) tasks) :
    ∃ c', tasks = alone c' ∧ c.effort = c'.effort + n ∧ c'.operatorCount = c.operatorCount := by
  generalize here : alone c = start at h
  induction h generalizing c with
  | refl => exact ⟨c, here.symm, rfl, rfl⟩
  | step going _ ih =>
      subst here
      obtain ⟨c', rfl, hs⟩ := exists_step_of_turn_going going
      obtain ⟨lower, kept⟩ := counts_of_step hs
      obtain ⟨last, same, lower', kept'⟩ := ih rfl
      exact ⟨last, same, by omega, kept'.trans kept⟩

/-- A run is over, at the latest, one step after the effort is used up.  A run that accepts has
used it up and has made a node of every operator; its last step is the one that finds nothing
left. -/
theorem bounded_of_ends {result : Except (Stop ParseError) Parsed}
    (h : Ends registry n c result) :
    n ≤ c.effort + 1 ∧
      ∀ parsed, result = .ok parsed → n = c.effort + 1 ∧ parsed.pool.size = c.operatorCount := by
  obtain ⟨k, last, rfl, leads, ending⟩ := h.exists_leads
  obtain ⟨c', rfl, lower, kept⟩ := counts_of_leads leads
  refine ⟨by omega, fun parsed accepted => ?_⟩
  rcases step_of_turn_ending ending with ⟨p, hs, same⟩ | ⟨e, -, same⟩
  · obtain rfl := Except.ok.inj (same.symm.trans accepted)
    obtain ⟨none_left, nodes⟩ := counts_of_step_eq_done hs
    exact ⟨by omega, nodes.symm.trans kept⟩
  · cases same.symm.trans accepted

/-- Every run of the parser comes to an end, since the effort cannot go on falling.  No budget is
needed for that. -/
theorem exists_ends (registry : Registry) (c : Configuration) :
    ∃ n result, n ≤ c.effort + 1 ∧ Ends registry n c result := by
  rcases Schedule.ends_or_leads (fun _ => Configuration.step registry) none (c.effort + 1)
      (alone c) with ⟨n, result, bound, ends⟩ | ⟨last, leads⟩
  · exact ⟨n, result, bound, ends⟩
  · obtain ⟨c', -, lower, -⟩ := counts_of_leads leads
    omega

end Configuration

/-! ### Parsing -/

/-- The run of the parser on some tokens, with its counters. -/
def run (registry : Registry) (s : Scheduler) (tokens : List Token) :
    Except (Stop ParseError) Parsed × Stats :=
  s.runAlone (fun (_ : Unit) => Configuration.step registry) () (.start tokens)

/-- What parsing answers is the result of the run, with the errors of the scheduler turned into
errors of parsing. -/
theorem parseWith_eq_run (registry : Registry) (s : Scheduler) (tokens : List Token) :
    registry.parseWith s tokens = (run registry s tokens).1.mapError ParseError.ofStop := rfl

/-- The error of a run that ends by itself is not the scheduler's.  It was raised by an action,
and actions raise faults of their own. -/
theorem ne_stopped_of_ends {registry : Registry} {c : Configuration} {n : Nat}
    {result : Except (Stop ParseError) Parsed} {e : ParseError} (h : Ends registry n c result)
    (failed : result.mapError ParseError.ofStop = .error e) (fault : Schedule.Fault) :
    e.fault ≠ .stopped fault := by
  obtain ⟨last, -, ⟨p, -, rfl⟩ | ⟨e', hs, rfl⟩⟩ :=
    exists_last_of_ends (P := fun _ => True) (fun _ _ _ _ => trivial) h trivial
  · cases failed
  · cases failed
    exact (Configuration.snapshot_of_step_eq_fail hs).1 fault

section Runs

variable {registry : Registry} {s : Scheduler} {tokens : List Token} {n : Nat}
variable {result : Except (Stop ParseError) Parsed} {parsed : Parsed}

/-- A run that ends within the budget has the result and the number of steps of its turns. -/
theorem run_of_ends (h : Ends registry n (.start tokens) result) (within : n ≤ s.budget) :
    ∃ depth, run registry s tokens = (result, ⟨n, depth⟩) :=
  s.runAlone_of_ends h within

/-- A run of the parser ends by itself, or it uses up a budget that is too small.  In the second
case, the budget does not allow the actions that tokens and operators need. -/
theorem ends_or_exceeds (registry : Registry) (s : Scheduler) (tokens : List Token) :
    (∃ n depth result, n ≤ s.budget ∧ Ends registry n (.start tokens) result ∧
      run registry s tokens = (result, ⟨n, depth⟩)) ∨
    (s.budget ≤ actions tokens ∧ ∃ depth, run registry s tokens =
      (.error (.fault (.budgetExceeded s.budget)), ⟨s.budget, depth⟩)) := by
  rcases s.ends_of_runAlone (fun _ => Configuration.step registry) () (.start tokens) with
    ended | ⟨last, depth, leads, same⟩
  · exact .inl ended
  · obtain ⟨c', -, lower, -⟩ := Configuration.counts_of_leads leads
    rw [Configuration.effort_start] at lower
    exact .inr ⟨by omega, depth, same⟩

/-- No run takes more steps than there are tokens and operators, and one.  This holds of runs that
fail, and of those that are stopped. -/
theorem steps_run_le (registry : Registry) (s : Scheduler) (tokens : List Token) :
    (run registry s tokens).2.steps ≤ actions tokens + 1 := by
  rcases ends_or_exceeds registry s tokens with
    ⟨n, depth, result, -, ends, same⟩ | ⟨short, depth, same⟩
  · have bound := (Configuration.bounded_of_ends ends).1
    rw [same]
    exact bound
  · rw [same]
    exact Nat.le_succ_of_le short

/-- What is accepted has a run of exactly so many steps, with a node for each operator, and the
budget has allowed all of them. -/
theorem ends_of_parseWith (h : registry.parseWith s tokens = .ok parsed) :
    Ends registry (actions tokens + 1) (.start tokens) (.ok parsed) ∧
      actions tokens + 1 ≤ s.budget ∧ parsed.pool.size = operators tokens := by
  rw [parseWith_eq_run] at h
  rcases ends_or_exceeds registry s tokens with
    ⟨n, depth, result, within, ends, same⟩ | ⟨-, depth, same⟩
  · rw [same] at h
    cases result with
    | error why => cases h
    | ok p =>
        cases h
        obtain ⟨rfl, nodes⟩ := (Configuration.bounded_of_ends ends).2 parsed rfl
        exact ⟨ends, within, nodes.trans (Configuration.operatorCount_start tokens)⟩
  · rw [same] at h
    cases h

variable (registry) in
/-- Budgets that allow all of the effort make no difference, and none of them is exceeded: the run
ends by itself under each of them, and in the same way. -/
theorem parseWith_of_enough (enough : actions tokens + 1 ≤ s.budget) :
    ∃ n result, Ends registry n (.start tokens) result ∧
      registry.parseWith s tokens = result.mapError ParseError.ofStop := by
  obtain ⟨n, result, bound, ends⟩ := Configuration.exists_ends registry (.start tokens)
  obtain ⟨depth, same⟩ := run_of_ends (s := s) ends (Nat.le_trans bound enough)
  exact ⟨n, result, ends, by rw [parseWith_eq_run, same]⟩

/-- A budget that does not allow all of the effort is exceeded by what would be accepted.  The
error names the budget and shows nothing. -/
theorem parseWith_of_short
    (h : Ends registry (actions tokens + 1) (.start tokens) (.ok parsed))
    (short : s.budget ≤ actions tokens) :
    registry.parseWith s tokens = .error ⟨.stopped (.budgetExceeded s.budget), .empty⟩ := by
  rw [parseWith_eq_run]
  rcases ends_or_exceeds registry s tokens with
    ⟨n, depth, result, within, ends, -⟩ | ⟨-, depth, same⟩
  · have := (ends.unique h).1
    omega
  · rw [same]
    rfl

end Runs

/-- **Parsing takes a known number of steps**, whatever the desugarings do: at most
one for each token, one for each operator and one more.  What is accepted takes all
of them, and has as many nodes as there are operators.  So every budget that allows
them gives the same result, which is not the end of the budget, and what is accepted
under some budget exceeds every smaller one. -/
theorem parse_steps_exact (registry : Registry) (tokens : List Token) :
    (∀ s : Scheduler, (run registry s tokens).2.steps ≤ tokens.length + operators tokens + 1 ∧
      ∀ parsed, registry.parseWith s tokens = .ok parsed →
        (run registry s tokens).2.steps = tokens.length + operators tokens + 1 ∧
          parsed.pool.size = operators tokens) ∧
    (∀ s s' : Scheduler, tokens.length + operators tokens + 1 ≤ s.budget →
      tokens.length + operators tokens + 1 ≤ s'.budget →
      registry.parseWith s tokens = registry.parseWith s' tokens ∧
        ∀ e, registry.parseWith s tokens = .error e → ∀ fault, e.fault ≠ .stopped fault) ∧
    ∀ (s s' : Scheduler) (parsed : Parsed), registry.parseWith s tokens = .ok parsed →
      s'.budget ≤ tokens.length + operators tokens →
      ∃ e, registry.parseWith s' tokens = .error e ∧
        e.fault = .stopped (.budgetExceeded s'.budget) ∧
        e.fault.message = "parse step budget of " ++ toString s'.budget ++ " exceeded" := by
  refine ⟨fun s => ⟨steps_run_le registry s tokens, fun parsed accepted => ?_⟩,
    fun s s' enough enough' => ?_, fun s s' parsed accepted short => ?_⟩
  · obtain ⟨ends, within, nodes⟩ := ends_of_parseWith accepted
    obtain ⟨depth, same⟩ := run_of_ends ends within
    exact ⟨by rw [same]; rfl, nodes⟩
  · obtain ⟨n, result, ends, same⟩ := parseWith_of_enough registry enough
    obtain ⟨n', result', ends', same'⟩ := parseWith_of_enough registry enough'
    obtain ⟨-, rfl⟩ := ends.unique ends'
    refine ⟨same.trans same'.symm, fun e failed => ?_⟩
    exact ne_stopped_of_ends ends (same.symm.trans failed)
  · obtain ⟨ends, -, -⟩ := ends_of_parseWith accepted
    exact ⟨_, parseWith_of_short ends short, rfl, rfl⟩

/-- The tokens of `!('a' == 'b')` under the standard registry: six tokens and two operators take
nine steps, and eight are not enough. -/
theorem parse_steps_negated_equality :
    ∃ parsed, Registry.standard.parse [.operator "!" .prefix1, .bracket .openParen, .literal "a",
        .operator "==" .infix2, .literal "b", .bracket .closeParen] 9 = .ok parsed ∧
      parsed.pool.size = 2 ∧
      ∃ e, Registry.standard.parse [.operator "!" .prefix1, .bracket .openParen, .literal "a",
          .operator "==" .infix2, .literal "b", .bracket .closeParen] 8 = .error e ∧
        e.fault.message = "parse step budget of " ++ toString 8 ++ " exceeded" := by
  have accepted := (parseWith_eq_ok_iff .standard (.new Scheduler.defaultBatch 9) _
    (by decide)).mpr ⟨.single (.prefix1 "!" (.paren (.infix2 (.single (.literal "a")) "=="
      (.literal "b")))), rfl, rfl⟩
  obtain ⟨steps, -, exceeds⟩ := parse_steps_exact .standard
    [.operator "!" .prefix1, .bracket .openParen, .literal "a", .operator "==" .infix2,
      .literal "b", .bracket .closeParen]
  obtain ⟨e, failed, -, message⟩ := exceeds _ (.new Scheduler.defaultBatch 8) _ accepted (by decide)
  exact ⟨_, accepted, ((steps _).2 _ accepted).2, e, failed, message⟩

end RuleEngine.Parse
