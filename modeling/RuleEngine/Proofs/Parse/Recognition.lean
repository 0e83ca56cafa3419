import RuleEngine.Proofs.Parse.Grammar
import RuleEngine.Proofs.Schedule.Turns
import RuleEngine.Standard.Library

/-!
# The parser recognizes the grammar

The parser knows no categories.  It has three patterns for the top of its stack,
tries them before every shift, and reduces as soon as one of them fits.  Here it
is shown to accept what the grammar derives, and to build what the derivation
says.

* **From derivations to runs.**  Over a stack that no operand completes, the
  parser reads an expression and leaves its operand there; over a stack that is
  not yet to be reduced, it reads an atom.  The number of actions is that of the
  tokens and the operators.
* **From runs to derivations.**  Each operand on the stack stands for an
  expression, and the text taken so far is spelled out by the stack.  An operand
  that completes an operator is always the one that was pushed last, and it
  stands for an atom.

The first direction needs the number of actions, since the budget must allow them.  The
second one needs no number: it is an invariant of single actions, that a configuration
stands for the tokens that it was started with, and it is carried through runs of any
length.  Uniqueness of derivations then joins the two, so that the derivation found from
a run is the one that was folded.

## Main definitions

* `Open` - no operand completes an operator of this stack.
* `Reads` - what the parser does with a phrase, given the result of its fold.
* `Spells` - a stack stands for these tokens.

## Main statements

* `reads_phrase` - the parser reads a phrase, or fails with the fault of its fold.
* `exists_phrase_of_ends` - what the parser accepts is an expression.
* `parse_eq_ok_iff_derived` - parsing is deriving and folding.
-/

namespace RuleEngine

/-- Whether a token is an operator. -/
def Token.isOperator : Token → Bool
  | operator _ _ => true
  | _ => false

namespace Parse

open Schedule (Task Stop Scheduler)

/-- The number of operators among some tokens. -/
def operators (tokens : List Token) : Nat :=
  tokens.countP Token.isOperator

/-- The number of actions that read some tokens: each of them is taken, and each
operator is reduced. -/
def actions (tokens : List Token) : Nat :=
  tokens.length + operators tokens

@[simp] theorem actions_nil : actions [] = 0 := rfl

@[simp] theorem actions_append (a b : List Token) : actions (a ++ b) = actions a + actions b := by
  simp only [actions, operators, List.length_append, List.countP_append]
  omega

@[simp] theorem actions_literal (text : String) (rest : List Token) :
    actions (.literal text :: rest) = 1 + actions rest := by
  simp [actions, operators, Token.isOperator]
  omega

@[simp] theorem actions_bracket (b : Bracket) (rest : List Token) :
    actions (.bracket b :: rest) = 1 + actions rest := by
  simp [actions, operators, Token.isOperator]
  omega

@[simp] theorem actions_operator (name : String) (fixity : Fixity) (rest : List Token) :
    actions (.operator name fixity :: rest) = 1 + actions rest + 1 := by
  rw [actions, actions, operators, operators, List.countP_cons_of_pos rfl, List.length_cons]
  omega

/-! ### Runs of the parser -/

/-- The parser in a configuration, as the only task of a run. -/
abbrev alone (c : Configuration) : List (Task Unit Configuration Parsed ParseError) :=
  [Task.new () c]

variable (registry : Registry)

/-- So many actions lead from a configuration to another one. -/
abbrev Leads (n : Nat) (c c' : Configuration) : Prop :=
  Schedule.Leads (fun _ => Configuration.step registry) none n (alone c) (alone c')

/-- After so many actions the parser ends with a result. -/
abbrev Ends (n : Nat) (c : Configuration) (result : Except (Stop ParseError) Parsed) : Prop :=
  Schedule.Ends (fun _ => Configuration.step registry) none n (alone c) result

variable {registry} {c c' : Configuration} {n : Nat}
variable {stack below : List Symbol} {rest : List Token} {pool : Pool}

theorem leads_one (h : c.step registry = .proceed c') : Leads registry 1 c c' := by
  refine .one ?_
  simp only [Schedule.turn, Task.new, h]
  rfl

theorem ends_one_fail {e : ParseError} (h : c.step registry = .fail e) :
    Ends registry 1 c (.error (.raised e)) := by
  refine .last ?_
  simp only [Schedule.turn, Task.new, h]

theorem ends_one_done {p : Parsed} (h : c.step registry = .done p) :
    Ends registry 1 c (.ok p) := by
  refine .last ?_
  simp only [Schedule.turn, Task.new, h, Schedule.handBack]

/-- The parser takes the next token if there is nothing to reduce.  Reductions come first, which
is what makes operators group to the left. -/
theorem leads_shift {token : Token} (h : reduction? stack = none)
    (hs : Configuration.shift ⟨token :: rest, stack, pool⟩ token rest = .proceed c') :
    Leads registry 1 ⟨token :: rest, stack, pool⟩ c' := by
  refine leads_one ?_
  simpa only [Configuration.step, h] using hs

/-! ### From derivations to runs -/

/-- No operand completes an operator on top of this stack. -/
def Open (stack : List Symbol) : Prop :=
  ∀ x, reduction? (.operand x :: stack) = none

/-- Whether an operand completes an operator does not depend on the operand.  It depends on what
is below: the operator, and the operands that it has already. -/
theorem open_of_reduction?_eq_none {x : Operand} (h : reduction? (.operand x :: stack) = none) :
    Open stack := by
  intro y
  unfold reduction? at h ⊢
  split at h <;> simp_all

variable (registry) in
/-- From `c`, in at most `n` actions, the parser leaves the operand of `outcome`
on `stack` before the tokens `rest`, with the pool of `outcome`; or `outcome` is
a fault, and it fails with that. -/
def Reads (n : Nat) (c : Configuration) (rest : List Token) (stack : List Symbol) :
    Except ParseFault Parsed → Prop
  | .ok p => Leads registry n c ⟨rest, .operand p.root :: stack, p.pool⟩
  | .error fault =>
      ∃ m snapshot, m ≤ n ∧ Ends registry m c (.error (.raised ⟨fault, snapshot⟩))

/-- What is read after some actions is read from where these began, in as many more. -/
theorem Reads.after {m : Nat} {outcome : Except ParseFault Parsed} (first : Leads registry m c c')
    (h : Reads registry n c' rest stack outcome) :
    Reads registry (m + n) c rest stack outcome := by
  cases outcome with
  | ok p => exact Schedule.Leads.trans first h
  | error fault =>
      obtain ⟨k, snapshot, bound, ends⟩ := h
      exact ⟨m + k, snapshot, by omega, Schedule.Leads.ends first ends⟩

/-- The parser goes on after a phrase if its fold succeeds.  If it fails, so does the run, and
what would have been read next is not looked at; the fold of a derivation has the same order. -/
theorem Reads.bind {m : Nat} {outcome : Except ParseFault Parsed} {rest' : List Token}
    {stack' : List Symbol} {next : Parsed → Except ParseFault Parsed}
    (h : Reads registry n c rest stack outcome)
    (then_ : ∀ p, Reads registry m ⟨rest, .operand p.root :: stack, p.pool⟩ rest' stack' (next p)) :
    Reads registry (n + m) c rest' stack' (outcome >>= next) := by
  cases outcome with
  | ok p => exact (then_ p).after h
  | error fault =>
      obtain ⟨k, snapshot, bound, ends⟩ := h
      exact ⟨k, snapshot, by omega, ends⟩

/-- To reduce is to apply the operator: one action, and its outcome is that of the fold. -/
theorem reads_reduction {name : String} {operands : List Operand}
    (h : reduction? stack = some ⟨name, operands, below⟩) :
    Reads registry 1 ⟨rest, stack, pool⟩ rest below
      (applyOperator registry name operands pool) := by
  have reduces : Configuration.step registry ⟨rest, stack, pool⟩ =
      Configuration.reduce registry ⟨rest, stack, pool⟩ ⟨name, operands, below⟩ := by
    simp only [Configuration.step, h]
  simp only [Configuration.reduce, Reduction.plain, Node.signature] at reduces
  unfold applyOperator
  cases found : registry.find? ⟨name, operands.length⟩ with
  | none =>
      rw [found] at reduces
      exact ⟨1, _, Nat.le_refl 1, ends_one_fail reduces⟩
  | some d =>
      simp only [found] at reduces
      dsimp only
      cases made : d.nodeFor pool ⟨name, operands⟩ with
      | error reason =>
          simp only [made] at reduces
          exact ⟨1, _, Nat.le_refl 1, ends_one_fail reduces⟩
      | ok node =>
          simp only [made] at reduces
          dsimp only
          split
          · rename_i accepted
            rw [if_pos accepted] at reduces
            exact leads_one reduces
          · rename_i refused
            rw [if_neg refused] at reduces
            exact ⟨1, _, Nat.le_refl 1, ends_one_fail reduces⟩

/-- What the stack below has to be like for a phrase: an expression may only
stand where no operand completes an operator, since the parser would reduce that
after the first atom already. -/
def Ready (stack : List Symbol) : Category → Prop
  | .atom => reduction? stack = none
  | .expression => reduction? stack = none ∧ Open stack

variable (registry) in
/-- **The parser reads every phrase as it is derived.**  The induction is on the derivation.  What
is on the stack below decides when the phrase is over: an expression needs a stack that no operand
completes, since it would be reduced too early otherwise. -/
theorem reads_phrase {category : Category} (d : Phrase category) (rest : List Token)
    (stack : List Symbol) (pool : Pool) (ready : Ready stack category) :
    Reads registry (actions d.tokens) ⟨d.tokens ++ rest, stack, pool⟩ rest stack
      (d.build registry pool) := by
  induction d generalizing rest stack pool with
  | literal text => exact leads_shift ready rfl
  | paren inner ih =>
      have opened : Leads registry 1 ⟨(Phrase.paren inner).tokens ++ rest, stack, pool⟩
          ⟨inner.tokens ++ .bracket .closeParen :: rest, .openParen :: stack, pool⟩ :=
        leads_shift ready (by simp [Configuration.shift])
      have read := (ih (.bracket .closeParen :: rest) _ pool ⟨rfl, fun _ => rfl⟩).after opened
      rw [Phrase.build, ← bind_pure (Phrase.build registry inner pool)]
      simp only [Phrase.tokens, actions_bracket, actions_append, actions_nil, ← Nat.add_assoc]
      exact read.bind fun p => leads_shift rfl rfl
  | brace inner ih =>
      have opened : Leads registry 1 ⟨(Phrase.brace inner).tokens ++ rest, stack, pool⟩
          ⟨inner.tokens ++ .bracket .closeBrace :: rest, .openBrace :: stack, pool⟩ :=
        leads_shift ready (by simp [Configuration.shift])
      have read := (ih (.bracket .closeBrace :: rest) _ pool ⟨rfl, fun _ => rfl⟩).after opened
      rw [Phrase.build]
      simp only [Phrase.tokens, actions_bracket, actions_append, actions_nil, ← Nat.add_assoc]
      exact read.bind fun p => leads_shift rfl rfl
  | prefix1 name x ih =>
      have first : Leads registry 1 ⟨(Phrase.prefix1 name x).tokens ++ rest, stack, pool⟩
          ⟨x.tokens ++ rest, .operator name .prefix1 :: stack, pool⟩ :=
        leads_shift ready rfl
      have read := (ih rest (.operator name .prefix1 :: stack) pool rfl).after first
      rw [Phrase.build]
      simp only [Phrase.tokens, actions_operator]
      exact read.bind fun p => reads_reduction rfl
  | prefix3 name x y z ihx ihy ihz =>
      have first : Leads registry 1 ⟨(Phrase.prefix3 name x y z).tokens ++ rest, stack, pool⟩
          ⟨x.tokens ++ (y.tokens ++ (z.tokens ++ rest)), .operator name .prefix3 :: stack, pool⟩ :=
        leads_shift ready (by simp [Configuration.shift])
      have read := (ihx (y.tokens ++ (z.tokens ++ rest)) _ pool ⟨rfl, fun _ => rfl⟩).after first
      rw [Phrase.build]
      simp only [Phrase.tokens, actions_operator, actions_append]
      rw [show 1 + (actions x.tokens + (actions y.tokens + actions z.tokens)) + 1 =
        1 + actions x.tokens + (actions y.tokens + (actions z.tokens + 1)) by omega]
      refine read.bind fun p => ?_
      refine (ihy (z.tokens ++ rest) _ p.pool ⟨rfl, fun _ => rfl⟩).bind fun q => ?_
      -- The third operand is completed by its first atom.
      refine (ihz rest (.operand q.root :: .operand p.root :: .operator name .prefix3 :: stack)
        q.pool rfl).bind fun r => ?_
      exact reads_reduction rfl
  | single x ih => exact ih rest stack pool ready.1
  | infix2 x name y ihx ihy =>
      have read := ihx (.operator name .infix2 :: (y.tokens ++ rest)) stack pool ready
      rw [Phrase.build]
      simp only [Phrase.tokens, actions_operator, actions_append, List.append_assoc,
        List.cons_append]
      rw [show actions x.tokens + (1 + actions y.tokens + 1) =
        actions x.tokens + (1 + (actions y.tokens + 1)) by omega]
      refine read.bind fun p => ?_
      -- The operand is not reduced, since nothing below waits for it.
      have next : Leads registry 1
          ⟨.operator name .infix2 :: (y.tokens ++ rest), .operand p.root :: stack, p.pool⟩
          ⟨y.tokens ++ rest, .operator name .infix2 :: .operand p.root :: stack, p.pool⟩ :=
        leads_shift (ready.2 _) rfl
      refine Reads.after next ?_
      refine (ihy rest (.operator name .infix2 :: _) p.pool rfl).bind fun q => ?_
      exact reads_reduction rfl

variable (registry) in
/-- What is folded from a derivation is parsed, with one action more than its tokens take.  That
action finds a single operand and nothing left. -/
theorem ends_of_build {d : Phrase .expression} {parsed : Parsed}
    (built : d.build registry .empty = .ok parsed) :
    Ends registry (actions d.tokens + 1) (.start d.tokens) (.ok parsed) := by
  have read := reads_phrase registry d [] [] .empty ⟨rfl, fun _ => rfl⟩
  rw [List.append_nil, built] at read
  exact Schedule.Leads.ends read (ends_one_done rfl)

variable (registry) in
/-- The run of the parser on the tokens of an expression: it ends with what the fold comes to, or
with the fault at which the fold fails, and not later than the whole phrase would take. -/
theorem ends_of_phrase (d : Phrase .expression) :
    ∃ n, n ≤ actions d.tokens + 1 ∧
      match d.build registry .empty with
      | .ok parsed => Ends registry n (.start d.tokens) (.ok parsed)
      | .error fault => ∃ snapshot,
          Ends registry n (.start d.tokens) (.error (.raised ⟨fault, snapshot⟩)) := by
  cases built : d.build registry .empty with
  | ok parsed => exact ⟨actions d.tokens + 1, Nat.le_refl _, ends_of_build registry built⟩
  | error fault =>
      have read := reads_phrase registry d [] [] .empty ⟨rfl, fun _ => rfl⟩
      rw [List.append_nil, built] at read
      obtain ⟨m, snapshot, bound, ends⟩ := read
      exact ⟨m, by omega, snapshot, ends⟩

/-! ### From runs to derivations

Right after an operand was pushed, it stands for an atom and may complete an
operator.  If it does not, it is from then on an expression like any other. -/

/-- A stack stands for some tokens.  No operand of it completes an operator. -/
inductive Spells : List Symbol → List Token → Prop
  | nil : Spells [] []
  | operator (name : String) (fixity : Fixity) {stack taken} : Spells stack taken →
      Spells (.operator name fixity :: stack) (taken ++ [.operator name fixity])
  | openParen {stack taken} : Spells stack taken →
      Spells (.openParen :: stack) (taken ++ [.bracket .openParen])
  | openBrace {stack taken} : Spells stack taken →
      Spells (.openBrace :: stack) (taken ++ [.bracket .openBrace])
  | operand (x : Operand) (e : Phrase .expression) {stack taken} : Spells stack taken →
      Open stack → Spells (.operand x :: stack) (taken ++ e.tokens)

/-- A configuration stands for `tokens`: what the stack stands for, and what is
left. -/
inductive Configuration.Spells (tokens : List Token) : Configuration → Prop
  /-- Nothing can be reduced. -/
  | settled {stack taken rest pool} : Parse.Spells stack taken → taken ++ rest = tokens →
      Spells tokens ⟨rest, stack, pool⟩
  /-- An atom has just been read. -/
  | pushed (x : Operand) (a : Phrase .atom) {below taken rest pool} : Parse.Spells below taken →
      taken ++ (a.tokens ++ rest) = tokens → Spells tokens ⟨rest, .operand x :: below, pool⟩

variable {tokens taken : List Token}

/-- A stack that stands for tokens has nothing on it that could be reduced: the last operand of an
operator on it is not there yet. -/
theorem Spells.reduction?_eq_none (h : Spells stack taken) : reduction? stack = none := by
  cases h with
  | operand x e _ free => exact free x
  | _ => rfl

/-- Where nothing can be reduced, every operand stands for an expression, and what the stack
spells out is the part of the tokens that was taken. -/
theorem Configuration.Spells.settle (h : c.Spells tokens) (idle : reduction? c.stack = none) :
    ∃ taken, Parse.Spells c.stack taken ∧ taken ++ c.remaining = tokens := by
  cases h with
  | settled spells same => exact ⟨_, spells, same⟩
  | pushed x a spells same =>
      refine ⟨_, .operand x (.single a) spells (open_of_reduction?_eq_none idle), ?_⟩
      rw [List.append_assoc]
      exact same

/-- What is reduced has an atom as its last operand, since anything longer would have been reduced
before.  So the operator and its operands are a phrase of the grammar, for which the new operand
stands. -/
theorem Configuration.Spells.replace {r : Reduction} (h : c.Spells tokens)
    (found : reduction? c.stack = some r) (node : Node) :
    (c.replace r.below node).Spells tokens := by
  cases h with
  | settled spells _ => simp [spells.reduction?_eq_none] at found
  | pushed x a spells same =>
      -- Each pattern has the operand that was pushed on top, so this is the last one.
      dsimp only at found
      unfold reduction? at found
      split at found
      · rename_i name below heq
        cases heq
        cases found
        cases spells with
        | operator _ _ spells' =>
            refine .pushed _ (.prefix1 name a) spells' ?_
            simpa [Phrase.tokens] using same
      · rename_i name first below heq
        cases heq
        cases found
        cases spells with
        | operator _ _ spells' =>
            cases spells' with
            | operand _ e spells'' free =>
                -- What is below was free for `e` already, so nothing is completed now.
                refine .settled (.operand _ (.infix2 e name a) spells'' free) ?_
                simpa [Phrase.tokens] using same
      · rename_i second first name below heq
        cases heq
        cases found
        cases spells with
        | operand _ e spells' _ =>
            cases spells' with
            | operand _ e' spells'' _ =>
                cases spells'' with
                | operator _ _ spells''' =>
                    refine .pushed _ (.prefix3 name e' e a) spells''' ?_
                    simpa [Phrase.tokens] using same
      · cases found

/-- What is taken goes on the stack, or closes a bracket on it.  In the second case, the
expression between the brackets becomes an atom. -/
theorem Configuration.Spells.shift {token : Token} (spells : Parse.Spells c.stack taken)
    (same : taken ++ token :: rest = tokens) (h : c.shift token rest = .proceed c') :
    c'.Spells tokens := by
  obtain ⟨remaining, stack, pool⟩ := c
  cases token with
  | literal text =>
      cases h
      exact .pushed _ (.literal text) spells same
  | operator name fixity =>
      cases h
      exact .settled (.operator name fixity spells) (by simpa using same)
  | bracket b =>
      cases b with
      | openParen =>
          cases h
          exact .settled (.openParen spells) (by simpa using same)
      | openBrace =>
          cases h
          exact .settled (.openBrace spells) (by simpa using same)
      | closeParen =>
          simp only [Configuration.shift] at h
          split at h
          · cases h
            rename_i inner below
            -- Below the operand there is the opening bracket, so both are part of a new atom.
            cases spells with
            | operand _ e spells' _ =>
                cases spells' with
                | openParen spells'' =>
                    refine .pushed _ (.paren e) spells'' ?_
                    simpa [Phrase.tokens] using same
          · cases h
      | closeBrace =>
          simp only [Configuration.shift] at h
          split at h
          · cases h
            rename_i inner below
            cases spells with
            | operand _ e spells' _ =>
                cases spells' with
                | openBrace spells'' =>
                    refine .pushed _ (.brace e) spells'' ?_
                    simpa [Phrase.tokens] using same
          · cases h

/-- A reduction adds a node that the pool accepts.  Which node it is does not matter for what the
configuration stands for. -/
theorem Configuration.exists_node_of_reduce {r : Reduction}
    (h : c.reduce registry r = .proceed c') :
    ∃ node, c.pool.accepts node ∧ c' = c.replace r.below node := by
  unfold Configuration.reduce at h
  split at h
  · cases h
  · split at h
    · cases h
    · rename_i node _
      split at h
      · rename_i accepted
        cases h
        exact ⟨node, accepted, rfl⟩
      · cases h

/-- An action does not change what a configuration stands for: the same tokens, of which a first
part is on the stack. -/
theorem Configuration.Spells.step (h : c.Spells tokens) (hs : c.step registry = .proceed c') :
    c'.Spells tokens := by
  unfold Configuration.step at hs
  cases found : reduction? c.stack with
  | some r =>
      simp only [found] at hs
      obtain ⟨node, -, rfl⟩ := Configuration.exists_node_of_reduce hs
      exact h.replace found node
  | none =>
      simp only [found] at hs
      obtain ⟨taken, spells, same⟩ := h.settle found
      split at hs
      · rename_i token rest left
        rw [left] at same
        exact .shift spells same hs
      · unfold Configuration.finish at hs
        split at hs <;> cases hs

/-- The parser is done when a single operand is all that it has. -/
theorem Configuration.eq_of_step_eq_done {parsed : Parsed} (h : c.step registry = .done parsed) :
    c = ⟨[], [.operand parsed.root], parsed.pool⟩ := by
  obtain ⟨remaining, stack, pool⟩ := c
  unfold Configuration.step at h
  split at h
  · unfold Configuration.reduce at h
    repeat' split at h
    all_goals cases h
  · split at h
    · unfold Configuration.shift at h
      repeat' split at h
      all_goals cases h
    · rename_i left
      unfold Configuration.finish at h
      split at h
      · rename_i root whole
        cases h
        dsimp only at left whole
        rw [left, whole]
      · cases h

/-! ### Invariants of runs

The parser is the only task of its run and calls no other one, so a property of
configurations that every action preserves holds until the last action. -/

/-- No action calls another task, so the parser is never more than one task. -/
theorem Configuration.step_ne_call (inner : Task Unit Configuration Parsed ParseError) :
    c.step registry ≠ .call c' inner := by
  intro h
  unfold Configuration.step Configuration.reduce Configuration.shift Configuration.finish at h
  repeat' split at h
  all_goals cases h

/-- A run of the parser goes on by an action that proceeds. -/
theorem exists_step_of_turn_going {next : List (Task Unit Configuration Parsed ParseError)}
    (h : Schedule.turn (fun _ => Configuration.step registry) none (alone c) = .going next) :
    ∃ c', next = alone c' ∧ c.step registry = .proceed c' := by
  simp only [Schedule.turn, Task.new] at h
  cases hs : c.step registry with
  | proceed c' =>
      rw [hs] at h
      exact ⟨c', (Schedule.Turn.going.inj h).symm, rfl⟩
  | done p => simp [hs, Schedule.handBack] at h
  | call c' inner => exact absurd hs (Configuration.step_ne_call inner)
  | fail e => simp [hs] at h

/-- A run of the parser is over by an action that is done or that fails. -/
theorem step_of_turn_ending {result : Except (Stop ParseError) Parsed}
    (h : Schedule.turn (fun _ => Configuration.step registry) none (alone c) = .ending result) :
    (∃ p, c.step registry = .done p ∧ result = .ok p) ∨
      ∃ e, c.step registry = .fail e ∧ result = .error (.raised e) := by
  simp only [Schedule.turn, Task.new] at h
  cases hs : c.step registry with
  | proceed c' => simp [hs] at h
  | done p =>
      rw [hs] at h
      exact .inl ⟨p, rfl, (Schedule.Turn.ending.inj h).symm⟩
  | call c' inner => exact absurd hs (Configuration.step_ne_call inner)
  | fail e =>
      rw [hs] at h
      exact .inr ⟨e, rfl, (Schedule.Turn.ending.inj h).symm⟩

section Invariants

variable {P : Configuration → Prop}

/-- What every action preserves is preserved by the turns of the scheduler. -/
theorem turn_keeps (keeps : ∀ c c', P c → c.step registry = .proceed c' → P c')
    (tasks next : List (Task Unit Configuration Parsed ParseError))
    (h : ∃ c, tasks = alone c ∧ P c)
    (going : Schedule.turn (fun _ => Configuration.step registry) none tasks = .going next) :
    ∃ c, next = alone c ∧ P c := by
  obtain ⟨c, rfl, hc⟩ := h
  obtain ⟨c', rfl, hs⟩ := exists_step_of_turn_going going
  exact ⟨c', rfl, keeps c c' hc hs⟩

/-- What every action preserves holds wherever a run of the parser gets to. -/
theorem exists_alone_of_leads (keeps : ∀ c c', P c → c.step registry = .proceed c' → P c')
    {tasks : List (Task Unit Configuration Parsed ParseError)}
    (h : Schedule.Leads (fun _ => Configuration.step registry) none n (alone c) tasks)
    (start : P c) : ∃ c', tasks = alone c' ∧ P c' :=
  h.preserves (turn_keeps keeps) ⟨c, rfl, start⟩

/-- What every action preserves holds before the last action, which is done or fails from there. -/
theorem exists_last_of_ends (keeps : ∀ c c', P c → c.step registry = .proceed c' → P c')
    {result : Except (Stop ParseError) Parsed} (h : Ends registry n c result) (start : P c) :
    ∃ last, P last ∧ ((∃ p, last.step registry = .done p ∧ result = .ok p) ∨
      ∃ e, last.step registry = .fail e ∧ result = .error (.raised e)) := by
  obtain ⟨_, ⟨last, rfl, hlast⟩, ending⟩ := h.exists_last (turn_keeps keeps) ⟨c, rfl, start⟩
  exact ⟨last, hlast, step_of_turn_ending ending⟩

/-- What every action preserves holds where parsing ends, unless it is stopped.  Invariants of
single actions are carried over to parsing in this form. -/
theorem exists_last_of_parseWith (keeps : ∀ c c', P c → c.step registry = .proceed c' → P c')
    (s : Scheduler) {tokens : List Token} (start : P (.start tokens)) :
    match registry.parseWith s tokens with
    | .ok parsed => ∃ last, P last ∧ last.step registry = .done parsed
    | .error e => (∃ fault, e = ⟨.stopped fault, .empty⟩) ∨
        ∃ last, P last ∧ last.step registry = .fail e := by
  unfold Registry.parseWith
  rcases s.ends_of_runAlone (fun _ => Configuration.step registry) () (.start tokens) with
    ⟨n, depth, result, -, ends, run⟩ | ⟨_, depth, -, run⟩
  · rw [run]
    obtain ⟨last, hlast, ⟨p, hs, rfl⟩ | ⟨e, hs, rfl⟩⟩ := exists_last_of_ends keeps ends start
    · exact ⟨last, hlast, hs⟩
    · exact .inr ⟨last, hlast, hs⟩
  · rw [run]
    exact .inl ⟨_, rfl⟩

end Invariants

/-- **The parser accepts expressions only.**  Where it accepts, a single operand stands for all of
the tokens, and an operand stands for an expression. -/
theorem exists_phrase_of_ends {parsed : Parsed} (h : Ends registry n c (.ok parsed))
    (spells : c.Spells tokens) : ∃ e : Phrase .expression, e.tokens = tokens := by
  obtain ⟨last, spells', ⟨p, hs, same⟩ | ⟨e, -, failed⟩⟩ :=
    exists_last_of_ends (fun _ _ spells hs => spells.step hs) h spells
  · cases same
    obtain rfl := Configuration.eq_of_step_eq_done hs
    obtain ⟨taken, stack, same⟩ := spells'.settle rfl
    cases stack with
    | operand _ e below _ =>
        cases below
        exact ⟨e, by simpa using same⟩
  · cases failed

/-! ### Parsing -/

section Parsing

variable (registry) (s : Scheduler)

/-- Within the budget, what is folded from the derivation is parsed; if the fold fails, parsing
fails with the same fault. -/
theorem parseWith_of_phrase (d : Phrase .expression) (within : actions d.tokens + 1 ≤ s.budget) :
    match d.build registry .empty with
    | .ok parsed => registry.parseWith s d.tokens = .ok parsed
    | .error fault => ∃ snapshot, registry.parseWith s d.tokens = .error ⟨fault, snapshot⟩ := by
  obtain ⟨n, bound, ends⟩ := ends_of_phrase registry d
  cases built : d.build registry .empty with
  | ok parsed =>
      rw [built] at ends
      obtain ⟨depth, run⟩ := s.runAlone_of_ends ends (by omega)
      simp only [Registry.parseWith, run]
      rfl
  | error fault =>
      rw [built] at ends
      obtain ⟨snapshot, ends⟩ := ends
      obtain ⟨depth, run⟩ := s.runAlone_of_ends ends (by omega)
      refine ⟨snapshot, ?_⟩
      simp only [Registry.parseWith, run]
      rfl

/-- What is parsed, within any budget, is folded from a derivation.  A budget can make parsing
fail, but not come to something else. -/
theorem exists_build_of_parseWith {tokens : List Token} {parsed : Parsed}
    (h : registry.parseWith s tokens = .ok parsed) :
    ∃ d : Phrase .expression, d.tokens = tokens ∧ d.build registry .empty = .ok parsed := by
  rcases s.ends_of_runAlone (fun _ => Configuration.step registry) () (.start tokens) with
    ⟨n, depth, result, -, ends, run⟩ | ⟨last, depth, -, run⟩
  · simp only [Registry.parseWith, run] at h
    cases result with
    | error stop => cases h
    | ok p =>
        cases h
        obtain ⟨d, rfl⟩ := exists_phrase_of_ends ends (.settled .nil rfl)
        refine ⟨d, rfl, ?_⟩
        -- The derivation has a run of its own, and there is only one run.
        obtain ⟨m, -, ends'⟩ := ends_of_phrase registry d
        cases built : d.build registry .empty with
        | ok p' =>
            rw [built] at ends'
            exact congrArg _ (Except.ok.inj (ends'.unique ends).2)
        | error fault =>
            rw [built] at ends'
            obtain ⟨snapshot, failed⟩ := ends'
            cases (failed.unique ends).2
  · simp only [Registry.parseWith, run] at h
    cases h

/-- No smaller budget would do: what is accepted has used up all of the effort of its tokens. -/
theorem actions_le_of_parseWith {d : Phrase .expression} {parsed parsed' : Parsed}
    (built : d.build registry .empty = .ok parsed)
    (h : registry.parseWith s d.tokens = .ok parsed') : actions d.tokens + 1 ≤ s.budget := by
  rcases s.ends_of_runAlone (fun _ => Configuration.step registry) () (.start d.tokens) with
    ⟨n, depth, result, within, ends, -⟩ | ⟨last, depth, -, run⟩
  · rw [← ((ends_of_build registry built).unique ends).1] at within
    exact within
  · simp only [Registry.parseWith, run] at h
    cases h

/-- Parsing succeeds exactly with what is folded from the derivation of the tokens, under each
budget that is large enough for them. -/
theorem parseWith_eq_ok_iff {tokens : List Token} (parsed : Parsed)
    (within : actions tokens + 1 ≤ s.budget) :
    registry.parseWith s tokens = .ok parsed ↔
      ∃ d : Phrase .expression, d.tokens = tokens ∧ d.build registry .empty = .ok parsed := by
  constructor
  · exact exists_build_of_parseWith registry s
  · rintro ⟨d, rfl, built⟩
    have run := parseWith_of_phrase registry s d within
    rwa [built] at run

end Parsing

/-- **Parsing is deriving and folding.**  If the budget has an action for each
token, one for each operator and one more, then tokens are parsed if and only if
they are derived as an expression and the operators of the derivation can be
applied in post-order, and to what is folded in this way; and there is only one
derivation. -/
theorem parse_eq_ok_iff_derived (registry : Registry) (tokens : List Token) (budget : Nat)
    (within : tokens.length + operators tokens + 1 ≤ budget) :
    (∀ parsed, registry.parse tokens budget = .ok parsed ↔
      ∃ d : Phrase .expression, d.tokens = tokens ∧ d.build registry .empty = .ok parsed) ∧
    ∀ d d' : Phrase .expression, d.tokens = tokens → d'.tokens = tokens → d = d' := by
  constructor
  · intro parsed
    exact parseWith_eq_ok_iff registry (.new Scheduler.defaultBatch budget) parsed within
  · rintro d d' rfl same
    exact Phrase.tokens_injective same.symm

/-- The tokens of `!'a' && 'b'` under the standard registry. -/
theorem parse_negation_and :
    Registry.standard.parse
      [.operator "!" .prefix1, .literal "a", .operator "&&" .infix2, .literal "b"] 7 =
        .ok ⟨.node 1, ⟨#[⟨"!", [.literal "a"]⟩, ⟨"&&", [.node 0, .skip (.literal "b")]⟩]⟩⟩ := by
  refine ((parse_eq_ok_iff_derived .standard _ 7 (by decide)).1 _).2
    ⟨.infix2 (.single (.prefix1 "!" (.literal "a"))) "&&" (.literal "b"), rfl, ?_⟩
  rfl

end Parse

end RuleEngine
