import RuleEngine.Proofs.Parse.Effort

/-!
# Where parsing stops

An action that fails shows the configuration that it found.  So the error of a run
says how far the run had come: what it shows has been reached by actions that
succeeded, and the tokens that are left are those behind the ones that these actions
took.  Nothing that was taken gets lost on the way.  An operator is on the stack or
has become a node, and a bracket that was opened is on the stack until it is closed.

A run that has used up its budget had come as far as the budget allows, but no action
has failed there.  The scheduler ends such a run, and it knows nothing of what its
tasks' states show: the error has no place.

## Main definitions

* `openings`, `closings`, `unclosed` - brackets among tokens and on a stack.
* `Configuration.Consumed` - what a configuration has made of the tokens taken.

## Main statements

* `exists_consumed_of_leads` - every configuration on the way accounts for a first
  part of the tokens.
* `place_of_step_eq_fail` - which tokens the failing action stands before.
* `failure_shows_configuration` - the error of a failing action shows where it
  happened.
* `exceeded_budget_shows_nothing` - the end of the budget does not.

The brackets are counted on derivations: each operand on the stack stands for an
expression, and an expression closes what it opens.
-/

namespace RuleEngine

/-- Whether a bracket opens something. -/
def Bracket.isOpening : Bracket → Bool
  | openParen | openBrace => true
  | closeParen | closeBrace => false

/-- Whether a token opens a bracket. -/
def Token.isOpening : Token → Bool
  | bracket b => b.isOpening
  | _ => false

/-- Whether a token closes a bracket. -/
def Token.isClosing : Token → Bool
  | bracket b => !b.isOpening
  | _ => false

namespace Parse

open Schedule (Scheduler Stop)

/-- The number of brackets that some tokens open. -/
def openings (tokens : List Token) : Nat :=
  tokens.countP Token.isOpening

/-- The number of brackets that they close. -/
def closings (tokens : List Token) : Nat :=
  tokens.countP Token.isClosing

/-- Whether a symbol is a bracket. -/
def Symbol.isBracket : Symbol → Bool
  | openParen | openBrace => true
  | _ => false

/-- The number of brackets on a stack. -/
def unclosed (stack : List Symbol) : Nat :=
  stack.countP Symbol.isBracket

/-! ### Brackets -/

/-- The opening brackets of two parts are those of the one and of the other. -/
@[simp] theorem openings_append (a b : List Token) :
    openings (a ++ b) = openings a + openings b :=
  List.countP_append

@[simp] theorem closings_append (a b : List Token) :
    closings (a ++ b) = closings a + closings b :=
  List.countP_append

theorem openings_cons (token : Token) (rest : List Token) :
    openings (token :: rest) = openings rest + if token.isOpening then 1 else 0 :=
  List.countP_cons

theorem closings_cons (token : Token) (rest : List Token) :
    closings (token :: rest) = closings rest + if token.isClosing then 1 else 0 :=
  List.countP_cons

theorem unclosed_cons (symbol : Symbol) (stack : List Symbol) :
    unclosed (symbol :: stack) = unclosed stack + if symbol.isBracket then 1 else 0 :=
  List.countP_cons

/-- A phrase closes the brackets that it opens.  This is an induction over derivations, in which
only parentheses and braces have anything to show. -/
theorem Phrase.openings_eq_closings {category : Category} (d : Phrase category) :
    openings d.tokens = closings d.tokens := by
  induction d with
  | literal text => rfl
  | paren inner ih | brace inner ih =>
      simp only [tokens, openings_cons, closings_cons, openings_append, closings_append, ih]
      rfl
  | prefix1 name x ih =>
      simp only [tokens, openings_cons, closings_cons, ih]
      rfl
  | prefix3 name x y z ihx ihy ihz =>
      simp only [tokens, openings_cons, closings_cons, openings_append, closings_append, ihx,
        ihy, ihz]
      rfl
  | single x ih => exact ih
  | infix2 x name y ihx ihy =>
      simp only [tokens, openings_cons, closings_cons, openings_append, closings_append, ihx, ihy]
      rfl

/-- The brackets that some tokens open and do not close are on the stack that stands for them.
All others are inside the expressions for which its operands stand. -/
theorem Spells.openings_eq {stack : List Symbol} {taken : List Token} (h : Spells stack taken) :
    openings taken = closings taken + unclosed stack := by
  induction h with
  | nil => rfl
  | operator name fixity _ ih | openParen _ ih | openBrace _ ih =>
      rw [openings_append, closings_append, unclosed_cons, ih]
      rfl
  | operand x e _ _ ih =>
      rw [openings_append, closings_append, unclosed_cons, ih, e.openings_eq_closings,
        Nat.add_right_comm]
      rfl

/-! ### Configurations on the way -/

namespace Configuration

/-- What a configuration has made of the tokens that were taken to get there. -/
structure Consumed (tokens taken : List Token) (c : Configuration) : Prop where
  /-- The tokens that are left are the others. -/
  rest : taken ++ c.remaining = tokens
  /-- Each operator is a node or waits on the stack. -/
  operators : operators taken = c.pool.size + waiting c.stack
  /-- Each bracket is closed or waits on the stack. -/
  brackets : openings taken = closings taken + unclosed c.stack

variable {registry : Registry} {c : Configuration} {tokens : List Token} {k : Nat}

/-- Wherever a run has got to, its configuration stands for the tokens with which it was started. -/
theorem spells_of_leads (h : Leads registry k (.start tokens) c) : c.Spells tokens := by
  have start : (Configuration.start tokens).Spells tokens := .settled .nil rfl
  obtain ⟨c', same, spells⟩ := exists_alone_of_leads (fun _ _ h hs => h.step hs) h start
  cases same
  exact spells

/-- The brackets of the stack are those that the tokens taken have left open. -/
theorem Spells.exists_taken (h : c.Spells tokens) :
    ∃ taken, taken ++ c.remaining = tokens ∧
      openings taken = closings taken + unclosed c.stack := by
  cases h with
  | settled spells same => exact ⟨_, same, spells.openings_eq⟩
  | pushed x a spells same =>
      refine ⟨_ ++ a.tokens, by rw [List.append_assoc, same], ?_⟩
      rw [openings_append, closings_append, unclosed_cons, spells.openings_eq,
        a.openings_eq_closings, Nat.add_right_comm]
      rfl

/-- **Every configuration on the way accounts for a first part of the tokens**: each of its
operators is a node or on the stack, and each bracket that it left open is on the stack. -/
theorem exists_consumed_of_leads (h : Leads registry k (.start tokens) c) :
    ∃ taken, c.Consumed tokens taken := by
  obtain ⟨taken, rest, brackets⟩ := (spells_of_leads h).exists_taken
  obtain ⟨c', same, -, kept⟩ := counts_of_leads h
  cases same
  refine ⟨taken, rest, ?_, brackets⟩
  -- No operator gets lost, and those that are left have not been taken.
  rw [operatorCount_start, operatorCount] at kept
  have all : Parse.operators taken + Parse.operators c.remaining = Parse.operators tokens := by
    rw [← rest]
    exact List.countP_append.symm
  omega

variable {e : ParseError}

/-- An operator that cannot be reduced is not the fault of a token.  Its desugaring refused it, or
the pool did, or it is not registered. -/
theorem fault_of_reduce_eq_fail {r : Reduction} (h : c.reduce registry r = .fail e) :
    e.fault ≠ .malformed ∧ ∀ b, e.fault ≠ .unexpected b := by
  unfold reduce at h
  split at h
  · cases h
    exact ⟨nofun, nofun⟩
  · split at h
    · cases h
      exact ⟨nofun, nofun⟩
    · split at h
      · cases h
      · cases h
        exact ⟨nofun, nofun⟩

/-- A token that cannot be taken is a bracket that closes nothing.  All other tokens can be taken
anywhere, and what is wrong with them shows later. -/
theorem fault_of_shift_eq_fail {token : Token} {rest : List Token}
    (h : c.shift token rest = .fail e) :
    ∃ b, token = .bracket b ∧ b.isOpening = false ∧ e.fault = .unexpected b := by
  match token with
  | .literal _ | .operator _ _ | .bracket .openParen | .bracket .openBrace => cases h
  | .bracket .closeParen =>
      simp only [shift] at h
      split at h
      · cases h
      · cases h
        exact ⟨.closeParen, rfl, rfl, rfl⟩
  | .bracket .closeBrace =>
      simp only [shift] at h
      split at h
      · cases h
      · cases h
        exact ⟨.closeBrace, rfl, rfl, rfl⟩

/-- Behind all tokens there is only one thing that can be wrong: they form no expression. -/
theorem fault_of_finish_eq_fail (h : c.finish = .fail e) : e.fault = .malformed := by
  unfold finish at h
  split at h
  · cases h
  · cases h
    rfl

/-- An action that fails stands before the bracket that closes nothing, or behind all tokens if
these form no expression. -/
theorem place_of_step_eq_fail (h : c.step registry = .fail e) :
    (e.fault = .malformed → c.remaining = []) ∧
      ∀ b, e.fault = .unexpected b →
        b.isOpening = false ∧ ∃ rest, c.remaining = .bracket b :: rest := by
  unfold step at h
  split at h
  · obtain ⟨formed, expected⟩ := fault_of_reduce_eq_fail h
    exact ⟨fun fault => absurd fault formed, fun b fault => absurd fault (expected b)⟩
  · split at h
    · rename_i token rest left
      obtain ⟨b, rfl, closes, fault⟩ := fault_of_shift_eq_fail h
      rw [fault]
      refine ⟨nofun, fun b' same => ?_⟩
      obtain rfl := ParseFault.unexpected.inj same
      exact ⟨closes, rest, left⟩
    · rename_i left
      rw [fault_of_finish_eq_fail h]
      exact ⟨fun _ => left, nofun⟩

/-- Only the configuration before any token of none shows nothing.  After the first token there is
something on the stack, and before it there is a token. -/
theorem snapshot_eq_empty_iff (h : Leads registry k (.start tokens) c) :
    c.snapshot = .empty ↔ tokens = [] := by
  constructor
  · intro nothing
    have none_left : c.remaining = [] := congrArg ParseSnapshot.remaining nothing
    have no_symbol : c.stack = [] := by
      simpa [snapshot, ParseSnapshot.empty] using congrArg ParseSnapshot.stack nothing
    obtain ⟨taken, spells, same⟩ := (spells_of_leads h).settle (by rw [no_symbol]; rfl)
    rw [no_symbol] at spells
    cases spells
    rw [none_left] at same
    exact same.symm
  · rintro rfl
    -- There is no action to be taken, so the parser is where it started.
    obtain ⟨c', -, lower, -⟩ := counts_of_leads h
    obtain rfl : k = 0 := by
      rw [effort_start, actions_nil] at lower
      omega
    cases h
    rfl

end Configuration

/-! ### Errors -/

section Errors

variable {registry : Registry} {s : Scheduler} {tokens : List Token} {n : Nat}

/-- A run that ends with an error ended with an action that failed, and all actions before it have
succeeded. -/
theorem exists_leads_of_ends_error {why : Stop ParseError}
    (h : Ends registry n (.start tokens) (.error why)) :
    ∃ k c e, n = k + 1 ∧ Leads registry k (.start tokens) c ∧ c.step registry = .fail e ∧
      why = .raised e := by
  obtain ⟨k, last, rfl, leads, ending⟩ := h.exists_leads
  obtain ⟨c, rfl, -⟩ := Configuration.counts_of_leads leads
  rcases step_of_turn_ending ending with ⟨p, -, accepted⟩ | ⟨e, hs, failed⟩
  · cases accepted
  · cases failed
    exact ⟨k, c, e, rfl, leads, hs, rfl⟩

/-- **The error of an action that fails shows where it happened.**  Unless the budget
was used up, so many actions succeeded, and the error shows the configuration to which
they led: the next action failed and changed nothing.  The tokens that it shows are
those behind the ones taken: none if they form no expression, and else, for a bracket
that closes nothing, this bracket and what follows it.  The operators taken are nodes
or on the stack, and so are the brackets that are open. -/
theorem failure_shows_configuration {e : ParseError}
    (failed : registry.parseWith s tokens = .error e)
    (within : ∀ budget, e.fault ≠ .stopped (.budgetExceeded budget)) :
    ∃ k c taken, (run registry s tokens).2.steps = k + 1 ∧
      Leads registry k (.start tokens) c ∧ c.step registry = .fail e ∧
      e.snapshot = c.snapshot ∧ c.Consumed tokens taken ∧
      (e.fault = .malformed →
        e.fault.message = "Malformed expression" ∧ e.snapshot.remaining = []) ∧
      ∀ b, e.fault = .unexpected b →
        (b = .closeParen ∧ e.fault.message = "Unexpected ')' parenthesis" ∨
          b = .closeBrace ∧ e.fault.message = "Unexpected '\x7d' parenthesis") ∧
        ∃ rest, e.snapshot.remaining = .bracket b :: rest := by
  rw [parseWith_eq_run] at failed
  rcases ends_or_exceeds registry s tokens with
    ⟨n, depth, result, -, ends, same⟩ | ⟨-, depth, same⟩
  · rw [same] at failed
    cases result with
    | ok parsed => cases failed
    | error why =>
        -- The run ended by itself, so its last action failed.
        obtain ⟨k, c, e', rfl, leads, hs, rfl⟩ := exists_leads_of_ends_error ends
        cases failed
        obtain ⟨-, shown⟩ := Configuration.snapshot_of_step_eq_fail hs
        obtain ⟨taken, consumed⟩ := Configuration.exists_consumed_of_leads leads
        obtain ⟨malformed, unexpected⟩ := Configuration.place_of_step_eq_fail hs
        have left : e'.snapshot.remaining = c.remaining :=
          congrArg ParseSnapshot.remaining shown
        refine ⟨k, c, taken, by rw [same], leads, hs, shown, consumed, ?_, ?_⟩
        · intro fault
          exact ⟨by rw [fault]; rfl, left.trans (malformed fault)⟩
        · intro b fault
          obtain ⟨closes, rest, next⟩ := unexpected b fault
          refine ⟨?_, rest, left.trans next⟩
          rw [fault]
          cases b with
          | closeParen => exact .inl ⟨rfl, by decide⟩
          | closeBrace => exact .inr ⟨rfl, by decide⟩
          | openParen | openBrace => cases closes
  · rw [same] at failed
    cases failed
    exact absurd rfl (within s.budget)

/-- The tokens of `('a' ^ 'b'))` under the standard registry: six actions lead to the
parenthesis that closes nothing. -/
theorem failure_shows_parenthesis :
    ∃ e, Registry.standard.parse [.bracket .openParen, .literal "a", .operator "^" .infix2,
        .literal "b", .bracket .closeParen, .bracket .closeParen] 100 = .error e ∧
      e.fault.message = "Unexpected ')' parenthesis" ∧
      e.snapshot = ⟨[.bracket .closeParen], ["#0"], ⟨#[⟨"^", [.literal "a", .literal "b"]⟩]⟩⟩ ∧
      ∃ k c, Leads .standard k (.start [.bracket .openParen, .literal "a",
          .operator "^" .infix2, .literal "b", .bracket .closeParen, .bracket .closeParen]) c ∧
        c.step .standard = .fail e := by
  have ends : Ends .standard 7 (.start [.bracket .openParen, .literal "a",
      .operator "^" .infix2, .literal "b", .bracket .closeParen, .bracket .closeParen])
      (.error (.raised ⟨.unexpected .closeParen, ⟨[.bracket .closeParen], ["#0"],
        ⟨#[⟨"^", [.literal "a", .literal "b"]⟩]⟩⟩⟩)) :=
    .step rfl (.step rfl (.step rfl (.step rfl (.step rfl (.step rfl (.last rfl))))))
  obtain ⟨depth, same⟩ := run_of_ends (s := .new Scheduler.defaultBatch 100) ends (by decide)
  have failed : Registry.standard.parse [.bracket .openParen, .literal "a",
      .operator "^" .infix2, .literal "b", .bracket .closeParen, .bracket .closeParen] 100 =
      .error ⟨.unexpected .closeParen, ⟨[.bracket .closeParen], ["#0"],
        ⟨#[⟨"^", [.literal "a", .literal "b"]⟩]⟩⟩⟩ := by
    rw [Registry.parse, parseWith_eq_run, same]
    rfl
  obtain ⟨k, c, -, -, leads, hs, -⟩ := failure_shows_configuration failed nofun
  exact ⟨_, failed, by decide, rfl, k, c, leads, hs⟩

/-! ### The end of the budget -/

/-- **The end of the budget shows nothing.**  Parsing needs some number of steps.  With
fewer of them it fails, after just as many actions as the budget allows.  These lead to
a configuration that has taken a part of the tokens, like any other, but the error does
not show it: its snapshot is that of the configuration only if there are no tokens at
all. -/
theorem exceeded_budget_shows_nothing (registry : Registry) (tokens : List Token) :
    ∃ n result, Ends registry n (.start tokens) result ∧ ∀ s : Scheduler, s.budget < n →
      ∃ c taken, Leads registry s.budget (.start tokens) c ∧ c.Consumed tokens taken ∧
        registry.parseWith s tokens =
          .error ⟨.stopped (.budgetExceeded s.budget), .empty⟩ ∧
        (c.snapshot = .empty ↔ tokens = []) := by
  obtain ⟨n, result, -, ends⟩ := Configuration.exists_ends registry (.start tokens)
  refine ⟨n, result, ends, fun s short => ?_⟩
  rcases s.ends_of_runAlone (fun _ => Configuration.step registry) () (.start tokens) with
    ⟨m, depth, result', within, ends', -⟩ | ⟨last, depth, leads, same⟩
  · have := (ends.unique ends').1
    omega
  · obtain ⟨c, rfl, -⟩ := Configuration.counts_of_leads leads
    obtain ⟨taken, consumed⟩ := Configuration.exists_consumed_of_leads leads
    refine ⟨c, taken, leads, consumed, ?_, Configuration.snapshot_eq_empty_iff leads⟩
    simp only [Registry.parseWith, same]
    rfl

/-- One action for the literal `'a'`, which needs two: the literal has been taken, and the error
does not show it. -/
theorem exceeded_budget_literal :
    ∃ c taken, Leads .standard 1 (.start [.literal "a"]) c ∧
      c.Consumed [.literal "a"] taken ∧ c.snapshot ≠ .empty ∧
      Registry.standard.parse [.literal "a"] 1 =
        .error ⟨.stopped (.budgetExceeded 1), .empty⟩ := by
  obtain ⟨n, result, ends, short⟩ := exceeded_budget_shows_nothing .standard [.literal "a"]
  have needed : Ends .standard 2 (.start [.literal "a"]) (.ok ⟨.literal "a", .empty⟩) :=
    .step rfl (.last rfl)
  obtain ⟨rfl, -⟩ := ends.unique needed
  obtain ⟨c, taken, leads, consumed, failed, shown⟩ :=
    short (.new Scheduler.defaultBatch 1) (by decide)
  exact ⟨c, taken, leads, consumed, by simp [shown], failed⟩

/-- **The place is lost.**  After five actions for `'a' ^ 'b' ^ 'c'` there is a node, it
waits on the stack for the second operator, and the last literal is left.  If the budget
ends there, the error shows none of this. -/
theorem budget_snapshot_lost :
    ∃ c parsed, Leads .standard 5 (.start [.literal "a", .operator "^" .infix2, .literal "b",
        .operator "^" .infix2, .literal "c"]) c ∧
      c.snapshot = ⟨[.literal "c"], ["#0", "^"], ⟨#[⟨"^", [.literal "a", .literal "b"]⟩]⟩⟩ ∧
      Ends .standard 8 (.start [.literal "a", .operator "^" .infix2, .literal "b",
        .operator "^" .infix2, .literal "c"]) (.ok parsed) ∧
      Registry.standard.parse [.literal "a", .operator "^" .infix2, .literal "b",
          .operator "^" .infix2, .literal "c"] 5 =
        .error ⟨.stopped (.budgetExceeded 5), ⟨[], [], .empty⟩⟩ := by
  have ends : Ends .standard 8 (.start [.literal "a", .operator "^" .infix2, .literal "b",
      .operator "^" .infix2, .literal "c"])
      (.ok ⟨.node 1, ⟨#[⟨"^", [.literal "a", .literal "b"]⟩, ⟨"^", [.node 0, .literal "c"]⟩]⟩⟩) :=
    .step rfl (.step rfl (.step rfl (.step rfl (.step rfl (.step rfl (.step rfl (.last rfl)))))))
  have leads : Leads .standard 5 (.start [.literal "a", .operator "^" .infix2, .literal "b",
      .operator "^" .infix2, .literal "c"]) ⟨[.literal "c"],
        [.operator "^" .infix2, .operand (.node 0)],
        ⟨#[⟨"^", [.literal "a", .literal "b"]⟩]⟩⟩ :=
    .step rfl (.step rfl (.step rfl (.step rfl (.step rfl (.refl _)))))
  refine ⟨_, _, leads, by decide, ends, ?_⟩
  exact parseWith_of_short (s := .new Scheduler.defaultBatch 5) ends (by decide)

end Errors

end Parse

end RuleEngine
