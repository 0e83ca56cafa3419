import RuleEngine.Proofs.Operation.Alike
import RuleEngine.Proofs.Parse.Reachable
import RuleEngine.Proofs.Schedule.Lockstep
import RuleEngine.Proofs.Standard.Agreement

/-!
# Operators with two names

The words `and` and `or` are other names for the signs `&&` and `||`.  Their
desugarings make the nodes of the signs, so parsing cannot tell how an operator was
spelled once it has reduced it; and until then it does not look at names.

So the same actions are taken, whether or not the tokens are an expression, and what
comes of them differs at most in the tokens and names that an error shows.

The two parsers are compared action by action.  A relation between runs in parallel is
used for this, which is weaker than equality of all turns: the states may differ in
spelling as long as they take the same kind of action.  Pools, in contrast, are equal
throughout, since a node never has the name of a word.

## Main definitions

* `Standard.Synonym` - two names of one operator.
* `Token.Respelled`, `Configuration.Respelled` - the same but for such names.
* `Registry.parseSteps` - the number of actions that parsing takes.

## Main statements

* `Configuration.Respelled.step` - respelled configurations take respelled actions.
* `parseWith_respelled` - the results are the same, or the failures have the same
  fault.
-/

namespace RuleEngine

open Schedule (Scheduler)

/-- A sign and the word for it. -/
inductive Standard.Synonym : String → String → Prop
  | conjunction : Synonym "&&" "and"
  | disjunction : Synonym "||" "or"

/-- The token is the same, or a word in the place of a sign. -/
inductive Token.Respelled : Token → Token → Prop
  | same (token : Token) : Respelled token token
  | renamed {name name' : String} : Standard.Synonym name name' →
      Respelled (.operator name .infix2) (.operator name' .infix2)

/-- The number of actions that parsing takes. -/
def Registry.parseSteps (registry : Registry) (s : Scheduler) (tokens : List Token) : Nat :=
  (s.runAlone (fun (_ : Unit) => Parse.Configuration.step registry) () (.start tokens)).2.steps

namespace Parse

open Standard (Synonym)

/-! ### Configurations -/

/-- The symbol is the same, or a word in the place of a sign. -/
inductive Symbol.Respelled : Symbol → Symbol → Prop
  | same (symbol : Symbol) : Respelled symbol symbol
  | renamed {name name' : String} : Synonym name name' →
      Respelled (.operator name .infix2) (.operator name' .infix2)

/-- The same operands of the same operator, by any of its names. -/
structure Reduction.Respelled (r r' : Reduction) : Prop where
  /-- Only operators with two operands have two names. -/
  name : r.name = r'.name ∨ Synonym r.name r'.name ∧ r.operands.length = 2
  /-- The operands. -/
  operands : r.operands = r'.operands
  /-- The stack below. -/
  below : List.Forall₂ Symbol.Respelled r.below r'.below

/-- The pools are the same, the stacks and the tokens that are left are so but for
spelling. -/
structure Configuration.Respelled (c c' : Configuration) : Prop where
  /-- What is left of the tokens. -/
  remaining : List.Forall₂ Token.Respelled c.remaining c'.remaining
  /-- The stack. -/
  stack : List.Forall₂ Symbol.Respelled c.stack c'.stack
  /-- The nodes made so far. -/
  pool : c.pool = c'.pool

/-- The actions do the same but for spelling.  Failures have the same fault. -/
def Action.Respelled : Action → Action → Prop
  | .proceed c, .proceed c' => c.Respelled c'
  | .done p, .done p' => p = p'
  | .fail e, .fail e' => e.fault = e'.fault
  | _, _ => False

variable {stack stack' : List Symbol} {c c' : Configuration} {r r' : Reduction}
variable {tokens tokens' : List Token}

namespace Action.Respelled

variable {action : Action}

/-- A respelled action proceeds if the other one does, to a respelled configuration. -/
theorem exists_of_proceed (h : Action.Respelled (.proceed c) action) :
    ∃ c', action = .proceed c' ∧ c.Respelled c' :=
  match action, h with
  | .proceed c', h => ⟨c', rfl, h⟩

/-- It is done if the other one is, with the same result: nothing is left to be respelled in a
result. -/
theorem eq_of_done {p : Parsed} (h : Action.Respelled (.done p) action) : action = .done p :=
  match action, h with
  | .done _, rfl => rfl

/-- It fails if the other one does, with the same fault. -/
theorem exists_of_fail {e : ParseError} (h : Action.Respelled (.fail e) action) :
    ∃ e', action = .fail e' ∧ e.fault = e'.fault :=
  match action, h with
  | .fail e', h => ⟨e', rfl, h⟩

end Action.Respelled

/-- The same operators can be reduced.  Whether an operator has all its operands depends on its
fixity, and a name is not looked at. -/
theorem reduction?_respelled (h : List.Forall₂ Symbol.Respelled stack stack') :
    Option.Rel Reduction.Respelled (reduction? stack) (reduction? stack') := by
  unfold reduction?
  split
  · obtain _ | ⟨⟨⟩, _ | ⟨⟨⟩, below⟩⟩ := h
    exact .some ⟨.inl rfl, rfl, below⟩
  · obtain _ | ⟨⟨⟩, _ | ⟨named, _ | ⟨⟨⟩, below⟩⟩⟩ := h
    cases named with
    | same => exact .some ⟨.inl rfl, rfl, below⟩
    | renamed synonym => exact .some ⟨.inr ⟨synonym, rfl⟩, rfl, below⟩
  · obtain _ | ⟨⟨⟩, _ | ⟨⟨⟩, _ | ⟨⟨⟩, _ | ⟨⟨⟩, below⟩⟩⟩⟩ := h
    exact .some ⟨.inl rfl, rfl, below⟩
  · rename_i idle₁ idle₂ idle₃
    split
    · obtain _ | ⟨⟨⟩, _ | ⟨⟨⟩, below⟩⟩ := h
      exact absurd rfl (idle₁ _ _ _)
    · obtain _ | ⟨⟨⟩, _ | ⟨⟨⟩, _ | ⟨⟨⟩, below⟩⟩⟩ := h
      · exact absurd rfl (idle₂ _ _ _ _)
      · exact absurd rfl (idle₂ _ _ _ _)
    · obtain _ | ⟨⟨⟩, _ | ⟨⟨⟩, _ | ⟨⟨⟩, _ | ⟨⟨⟩, below⟩⟩⟩⟩ := h
      exact absurd rfl (idle₃ _ _ _ _ _)
    · exact .none

/-- The word makes the node of the sign, and so does the sign itself. -/
theorem apply_synonym {name name' : String} {pool : Pool} {operands : List Operand}
    (h : Synonym name name') (two : operands.length = 2)
    (within : ∀ x ∈ operands, x.Within pool) :
    applyOperator .standard name operands pool = applyOperator .standard name' operands pool := by
  match operands, two with
  | [x, y], _ =>
      have hx := within x (by simp)
      have hy := within y (by simp)
      cases h with
      | conjunction =>
          exact (Logic.apply_binary .conjunction hx hy).trans
            (Logic.apply_binary .andWord hx hy).symm
      | disjunction =>
          exact (Logic.apply_binary .disjunction hx hy).trans
            (Logic.apply_binary .orWord hx hy).symm

namespace Configuration.Respelled

/-- Reductions of respelled operators make the same nodes.  This is where the two spellings meet:
the operand that is put on the stack does not show which one was read. -/
theorem reduce (h : c.Respelled c') (hr : r.Respelled r')
    (within : ∀ x ∈ r.operands, x.Within c.pool) :
    Action.Respelled (c.reduce .standard r) (c'.reduce .standard r') := by
  have applied : applyOperator .standard r.name r.operands c.pool =
      applyOperator .standard r'.name r'.operands c'.pool := by
    rw [← h.pool, ← hr.operands]
    rcases hr.name with named | ⟨synonym, two⟩
    · rw [named]
    · exact apply_synonym synonym two within
  rw [reduce_eq, reduce_eq, applied]
  cases applyOperator .standard r'.name r'.operands c'.pool with
  | ok parsed => exact ⟨h.remaining, .cons (.same _) hr.below, rfl⟩
  | error fault => exact rfl

/-- Brackets are never respelled, so they close in the same way. -/
theorem shift {token token' : Token} {rest rest' : List Token} (h : c.Respelled c')
    (ht : token.Respelled token') (hrest : List.Forall₂ Token.Respelled rest rest') :
    Action.Respelled (c.shift token rest) (c'.shift token' rest') := by
  obtain ⟨remaining, stack, pool⟩ := c
  obtain ⟨remaining', stack', pool'⟩ := c'
  obtain ⟨-, symbols, pools⟩ := h
  dsimp only at symbols pools
  cases ht with
  | renamed synonym => exact ⟨hrest, .cons (.renamed synonym) symbols, pools⟩
  | same =>
      cases token with
      | literal text => exact ⟨hrest, .cons (.same _) symbols, pools⟩
      | operator name fixity => exact ⟨hrest, .cons (.same _) symbols, pools⟩
      | bracket b =>
          cases b with
          | openParen | openBrace => exact ⟨hrest, .cons (.same _) symbols, pools⟩
          | closeParen | closeBrace =>
              unfold Configuration.shift
              dsimp only
              split
              · obtain _ | ⟨⟨⟩, _ | ⟨⟨⟩, below⟩⟩ := symbols
                exact ⟨hrest, .cons (.same _) below, pools⟩
              · rename_i unclosed
                split
                · obtain _ | ⟨⟨⟩, _ | ⟨⟨⟩, below⟩⟩ := symbols
                  exact absurd rfl (unclosed _ _)
                · exact rfl

/-- At the end of the tokens, both have a single operand or neither has. -/
theorem finish (h : c.Respelled c') : Action.Respelled c.finish c'.finish := by
  obtain ⟨remaining, stack, pool⟩ := c
  obtain ⟨remaining', stack', pool'⟩ := c'
  obtain ⟨-, symbols, pools⟩ := h
  dsimp only at symbols pools
  unfold Configuration.finish
  dsimp only
  split
  · obtain _ | ⟨⟨⟩, ⟨⟩⟩ := symbols
    exact congrArg _ pools
  · rename_i unfinished
    split
    · obtain _ | ⟨⟨⟩, ⟨⟩⟩ := symbols
      exact absurd rfl (unfinished _)
    · exact rfl

/-- **Respelled configurations take respelled actions.**  The configuration has to be well-formed,
since a reduction is refused for operands that lead to missing nodes. -/
theorem step (h : c.Respelled c') (formed : c.WellFormed) :
    Action.Respelled (c.step .standard) (c'.step .standard) := by
  have reductions := reduction?_respelled h.stack
  unfold Configuration.step
  cases found : reduction? c.stack with
  | some r =>
      cases found' : reduction? c'.stack with
      | some r' =>
          rw [found, found'] at reductions
          cases reductions with
          | some hr =>
              exact h.reduce hr fun x mem => formed.stack x (mem_of_mem_operands found mem)
      | none =>
          rw [found, found'] at reductions
          cases reductions
  | none =>
      cases found' : reduction? c'.stack with
      | some r' =>
          rw [found, found'] at reductions
          cases reductions
      | none =>
          have tokens := h.remaining
          dsimp only
          generalize c.remaining = remaining at tokens
          generalize c'.remaining = remaining' at tokens
          cases tokens with
          | nil => exact h.finish
          | cons ht hrest => exact h.shift ht hrest

end Configuration.Respelled

/-! ### Whole runs -/

/-- The results are the same, or the failures have the same fault. -/
def SameAnswer : Except ParseError Parsed → Except ParseError Parsed → Prop :=
  Matches (fun e e' => e.fault = e'.fault) Eq

/-- Runs from respelled configurations go in parallel, with the same number of actions on both
sides. -/
theorem parallel_respelled : Schedule.Parallel (fun (_ : Unit) => Configuration.step .standard) none
    (fun tasks tasks' => ∃ c c', tasks = alone c ∧ tasks' = alone c' ∧ c.Respelled c' ∧
      c.WellFormed)
    (fun result result' =>
      SameAnswer (result.mapError ParseError.ofStop) (result'.mapError ParseError.ofStop)) where
  going := by
    rintro _ _ next ⟨c, c', rfl, rfl, h, formed⟩ going
    obtain ⟨d, rfl, hs⟩ := exists_step_of_turn_going going
    have actions := h.step formed
    rw [hs] at actions
    obtain ⟨d', hs', further⟩ := actions.exists_of_proceed
    refine ⟨alone d', ?_, d, d', rfl, rfl, further, formed.step hs⟩
    simp only [Schedule.turn, Schedule.Task.new, hs']
    rfl
  ending := by
    rintro _ _ result ⟨c, c', rfl, rfl, h, formed⟩ ending
    have actions := h.step formed
    rcases step_of_turn_ending ending with ⟨p, hs, rfl⟩ | ⟨e, hs, rfl⟩
    · rw [hs] at actions
      refine ⟨.ok p, ?_, rfl⟩
      simp only [Schedule.turn, Schedule.Task.new, actions.eq_of_done, Schedule.handBack]
    · rw [hs] at actions
      obtain ⟨e', hs', same⟩ := actions.exists_of_fail
      refine ⟨.error (.raised e'), ?_, same⟩
      simp only [Schedule.turn, Schedule.Task.new, hs']

/-- **Parsing does not depend on the names of operators.**  It comes to the same result, or fails
with the same fault, after the same number of actions. -/
theorem parseWith_respelled (h : List.Forall₂ Token.Respelled tokens tokens') (s : Scheduler) :
    SameAnswer (Registry.standard.parseWith s tokens) (Registry.standard.parseWith s tokens') ∧
      Registry.standard.parseSteps s tokens = Registry.standard.parseSteps s tokens' := by
  have start : (Configuration.start tokens).Respelled (.start tokens') := ⟨h, .nil, rfl⟩
  obtain ⟨answers, steps⟩ := parallel_respelled.runAlone s
    ⟨_, _, rfl, rfl, start, Configuration.wellFormed_start tokens⟩
  refine ⟨?_, steps⟩
  unfold Registry.parseWith
  rcases answers with ⟨exceeded, exceeded'⟩ | answers
  · dsimp only
    rw [exceeded, exceeded']
    exact rfl
  · exact answers

end Parse

end RuleEngine
