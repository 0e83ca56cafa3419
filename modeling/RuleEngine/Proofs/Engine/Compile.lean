import RuleEngine.Engine.Basic
import RuleEngine.Proofs.Parse.Recognition

/-!
# What is compiled

An engine compiles a text in two passes: the text is read as tokens, and these are
parsed.  Both have been described without a machine: tokens by the partition of the
text, and the parser by derivations of its tokens in a grammar, which are folded to the
nodes of a pool from left to right.  The two descriptions are put together here.

A text is rejected for one of four reasons, and the statement has a condition for each.
It cannot be read as tokens; these have no derivation; the fold of the derivation fails,
for an operand that an operator does not accept; or the budget is too small.  The
derivation is unique, so there is at most one expression for a text, and whoever knows
the derivation need not run the parser.

## Main statements

* `Engine.compile_eq_ok_iff` - a text is compiled if and only if its tokens have a
  derivation, this can be folded, and the parse budget has an action for each token,
  one for each operator and one more.
-/

namespace RuleEngine

open Parse (Phrase actions)

/-- **A text is compiled to what is folded from the derivation of its tokens.**  The expression
has the folded root and pool and keeps the registry and the configuration of the engine; the
budget must allow one action for each token, one for each operator and a last one. -/
theorem Engine.compile_eq_ok_iff {engine : Engine} {text : String} {e : Expression} :
    engine.compile text = .ok e ↔ ∃ d : Phrase .expression,
      engine.registry.tokenize text = .ok d.tokens ∧
      actions d.tokens + 1 ≤ engine.config.parseBudget ∧
      d.build engine.registry .empty = .ok ⟨e.root, e.pool⟩ ∧
      e = ⟨e.root, e.pool, engine.registry, engine.config⟩ := by
  unfold Engine.compile Engine.tokenize
  constructor
  · intro h
    cases read : engine.registry.tokenize text with
    | error e => simp [read] at h
    | ok tokens =>
        rw [read] at h
        dsimp only at h
        cases parses : engine.registry.parseWith
            (engine.config.scheduler engine.config.parseBudget) tokens with
        | error e => simp [parses] at h
        | ok parsed =>
            rw [parses] at h
            cases h
            -- The derivation that is found has used up the budget that the statement asks for.
            obtain ⟨d, rfl, built⟩ := Parse.exists_build_of_parseWith _ _ parses
            exact ⟨d, rfl, Parse.actions_le_of_parseWith _ _ built parses, built, rfl⟩
  · rintro ⟨d, read, short, built, same⟩
    have parses : engine.registry.parseWith (engine.config.scheduler engine.config.parseBudget)
        d.tokens = .ok ⟨e.root, e.pool⟩ :=
      (Parse.parseWith_eq_ok_iff _ _ _ short).mpr ⟨d, rfl, built⟩
    simp only [read, parses]
    rw [← same]

end RuleEngine
