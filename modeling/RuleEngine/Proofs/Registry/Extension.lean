import RuleEngine.Proofs.Token.RoundTrip
import RuleEngine.Registry.Call

/-!
# Larger registries

What is registered in addition to other things may have any names, as long as
all of it together breaks no rule of registration.  Then the rules keep the new
definitions away from the old ones: signatures are unique, a function name has
one arity, and the name of an operator has one fixity and contains no delimiter.

The new registry finds what the old one finds.  It may find more, so an error of
the old registry need not be an error of the new one; only what succeeds is the
same.

## Main definitions

* `Carries` - a success of one computation is one of another, with the same
  result.
* `Registry.Extends` - what a registry has in common with a larger one.
* `Vocabulary.Occurs`, `Registry.Delimited` - the tokens of a text with what
  stands behind them, and the texts in which a delimiter follows each operator.
* `Body.Stable` - a body whose replies do not get lost in a larger directory.

## Main statements

* `Registry.extends_of_build` - a registry that is built from more registrations
  extends one that is built from some of them.
* `Registry.Extends.tokenize` - it reads delimited texts in the same way.
* `Registry.Extends.call`, `Registry.Extends.apply` - and stable bodies have the
  same outcomes, through all hand-overs.
-/

namespace RuleEngine

/-! ### Results that are carried over -/

/-- If the first computation succeeds, the second one has the same result. -/
def Carries {ε α : Type} (x y : Except ε α) : Prop :=
  ∀ a, x = .ok a → y = .ok a

namespace Carries

variable {ε α β : Type} {x y : Except ε α}

theorem refl (x : Except ε α) : Carries x x :=
  fun _ h => h

/-- An error carries nothing over, so anything may stand on the other side. -/
theorem error {e : ε} : Carries (.error e) y :=
  nofun

/-- Computations one after another are carried over if the first step is, and each later one is
for the same result. -/
theorem bind {f g : α → Except ε β} (h : Carries x y) (next : ∀ a, Carries (f a) (g a)) :
    Carries (x >>= f) (y >>= g) := by
  cases x with
  | error e => exact error
  | ok a =>
      rw [h a rfl]
      exact next a

/-- What is made of a result is carried over with it. -/
theorem map {f : α → β} (h : Carries x y) : Carries (x.map f) (y.map f) := by
  cases x with
  | error e => exact error
  | ok a =>
      rw [h a rfl]
      exact refl _

end Carries

/-! ### What is found -/

namespace Registry

/-- What is found in a registry is found in a larger one, and operators are read
there with the same fixity. -/
structure Extends (registry larger : Registry) : Prop where
  /-- The larger registry reads what it has. -/
  regular : larger.Regular
  /-- Operators are operators. -/
  operators : ∀ operator ∈ registry.operators, operator ∈ larger.operators
  /-- An operator is defined with the arity of its fixity. -/
  defined : ∀ operator ∈ registry.operators,
    ∃ d, registry.find? ⟨operator.1, operator.2.arity⟩ = some d
  /-- Definitions are the same. -/
  find? : ∀ signature d, registry.find? signature = some d → larger.find? signature = some d
  /-- Names stand for the same functions. -/
  resolve : ∀ name, Carries (registry.directory.resolve name) (larger.directory.resolve name)

variable {registry larger : Registry} {base all : List Registration}

/-- Each operator that can be read is found under its name and the number of operands that its
fixity takes. -/
theorem exists_find?_of_mem_operators (built : build all = .ok registry)
    {operator : String × Fixity} (mem : operator ∈ registry.operators) :
    ∃ d, registry.find? ⟨operator.1, operator.2.arity⟩ = some d := by
  obtain ⟨sound, rfl⟩ := exists_assemble_of_build built
  obtain ⟨-, -, -, -, complete⟩ := Registration.firstFault?_eq_none_iff.mp sound
  obtain ⟨r, hr, hfixity⟩ := List.mem_filterMap.mp (mem_operators_assemble.mp mem)
  have bodied := List.findSome?_eq_none_iff.mp complete r hr
  cases r with
  | function name arity body => cases hfixity
  | operator name fixity body? desugar? =>
      cases hfixity
      cases body? with
      | none => simp [Registration.definition?] at bodied
      | some body => exact ⟨_, find?_of_build built hr rfl⟩

theorem mem_of_arity? {directory : Directory} {name : String} {arity : Nat}
    (h : directory.arity? name = some arity) : (name, arity) ∈ directory.arities := by
  obtain ⟨entry, found, rfl⟩ := Option.map_eq_some_iff.mp h
  obtain rfl := Table.key_of_find? found
  exact Table.mem_of_find? found

/-- The arity of a name is that with which it is registered, since no function takes the place of
another one. -/
theorem arity?_of_build (built : build all = .ok registry) {name : String} {arity : Nat}
    (mem : (name, arity) ∈ all.filterMap Registration.function?) :
    registry.directory.arity? name = some arity := by
  obtain ⟨sound, rfl⟩ := exists_assemble_of_build built
  obtain ⟨-, -, single, -, -⟩ := Registration.firstFault?_eq_none_iff.mp sound
  cases found : (assemble all sound).directory.arity? name with
  | none =>
      have missing := Option.map_eq_none_iff.mp found
      have listed := (mem_arities_assemble sound).mpr mem
      simpa using List.find?_eq_none.mp missing _ listed
  | some other =>
      have listed := (mem_arities_assemble sound).mp (mem_of_arity? found)
      rw [Registration.arity_unique single listed mem]

/-- **What is built from more registrations extends what is built from some.**  Both have been
checked, so both find everything that is registered; and what the smaller registry reads as an
operator is one of the larger registry, too. -/
theorem extends_of_build (built : build base = .ok registry) (more : base ⊆ all)
    (built' : build all = .ok larger) : registry.Extends larger where
  regular := regular_of_build built'
  operators := by
    obtain ⟨-, rfl⟩ := exists_assemble_of_build built
    obtain ⟨-, rfl⟩ := exists_assemble_of_build built'
    intro operator mem
    rw [mem_operators_assemble] at mem ⊢
    exact List.filterMap_subset _ more mem
  defined := fun _ => exists_find?_of_mem_operators built
  find? := by
    intro signature d found
    obtain ⟨sound, rfl⟩ := exists_assemble_of_build built
    obtain ⟨r, hr, hd⟩ :=
      List.mem_filterMap.mp ((mem_definitions_assemble sound).mp (Table.mem_of_find? found))
    have same : r.signature = signature := by
      rw [← Registration.signature_of_definition? hd, signature_of_find? found]
    rw [← same]
    exact find?_of_build built' (more hr) hd
  resolve := by
    intro name
    unfold Directory.resolve
    generalize statedArity name = parts
    -- Whatever is stated, the name before it is looked up in both directories.
    obtain ⟨part, stated?⟩ := parts
    dsimp only
    cases found : registry.directory.arity? part with
    | none => exact .error
    | some arity =>
        obtain ⟨sound, rfl⟩ := exists_assemble_of_build built
        have mem := List.filterMap_subset Registration.function? more
          ((mem_arities_assemble sound).mp (mem_of_arity? found))
        rw [arity?_of_build built' mem]
        exact .refl _

end Registry

/-! ### What is read -/

namespace Vocabulary

/-- The token is read in the text, with `after` behind it. -/
inductive Occurs (vocabulary : Vocabulary) : List Char → Token → List Char → Prop
  | here {text c rest token after} : text.dropWhile Text.isSpace = c :: rest →
      vocabulary.token? (c :: rest) = some (token, after) → Occurs vocabulary text token after
  | later {text c rest token after token' after'} : text.dropWhile Text.isSpace = c :: rest →
      vocabulary.token? (c :: rest) = some (token, after) →
      Occurs vocabulary after token' after' → Occurs vocabulary text token' after'

end Vocabulary

namespace Registry

open Vocabulary (startsDelimited)

variable {registry larger : Registry}

/-- A delimiter directly follows each operator that is read in the text. -/
def Delimited (registry : Registry) (text : List Char) : Prop :=
  ∀ name fixity after, registry.vocabulary.Occurs text (.operator name fixity) after →
    startsDelimited after

namespace Extends

variable (h : registry.Extends larger)

include h

/-- An operator with a delimiter behind it is read by both.  A longer name that begins with it
would have to go on with the delimiter, which no name contains. -/
theorem operator? {text after : List Char} {token : Token}
    (found : registry.vocabulary.operator? text = some (token, after))
    (delimited : startsDelimited after) :
    larger.vocabulary.operator? text = some (token, after) := by
  obtain ⟨name, fixity, mem, rfl, rfl⟩ := Vocabulary.exists_of_operator? found
  obtain ⟨operator, hop, same⟩ := List.mem_map.mp mem
  cases same
  have read := delimited?_operator h.regular (h.operators operator hop) delimited
  rw [Vocabulary.operator?, read, String.ofList_toList]

/-- So is any token, and literals and brackets are read without the registry. -/
theorem token? {c : Char} {text after : List Char} {token : Token}
    (found : registry.vocabulary.token? (c :: text) = some (token, after))
    (delimited : ∀ name fixity, token = .operator name fixity → startsDelimited after) :
    larger.vocabulary.token? (c :: text) = some (token, after) := by
  unfold Vocabulary.token? at found ⊢
  dsimp only at found ⊢
  split at found
  · exact found
  · split
    · rename_i quote
      rwa [if_pos quote] at found
    · rename_i other
      rw [if_neg other] at found
      obtain ⟨name, fixity, -, rfl, -⟩ := Vocabulary.exists_of_operator? found
      exact h.operator? found (delimited _ fixity rfl)

/-- All tokens of a delimited text are read by both, one after the other. -/
theorem tokens {before tokens : List Token} {text : List Char}
    (read : registry.vocabulary.tokens before text = .ok tokens)
    (delimited : registry.Delimited text) :
    larger.vocabulary.tokens before text = .ok tokens := by
  induction before, text using Vocabulary.tokens.induct registry.vocabulary with
  | case1 before text blank =>
      rw [Vocabulary.tokens_eq, blank] at read ⊢
      exact read
  | case2 before text c rest solid missing =>
      rw [Vocabulary.tokens_eq, solid] at read
      simp only [missing] at read
      cases read
  | case3 before text c rest solid token after found _ ih =>
      rw [Vocabulary.tokens_eq, solid] at read ⊢
      simp only [found] at read
      have here := h.token? found fun name fixity same =>
        delimited name fixity after (same ▸ .here solid found)
      simp only [here]
      exact ih read fun name fixity after' later =>
        delimited name fixity after' (.later solid found later)

/-- **Delimited texts are read in the same way.**  Without delimiters they need not be: a longer
operator may be new. -/
theorem tokenize {tokens : List Token} {text : String}
    (read : registry.tokenize text = .ok tokens) (delimited : registry.Delimited text.toList) :
    larger.tokenize text = .ok tokens :=
  h.tokens read delimited

end Extends

end Registry

/-! ### What is called -/

/-- A reply of the body is the same if names stand for the same functions and
possibly for more. -/
def Body.Stable (body : Body) : Prop :=
  ∀ host env (directory larger : Directory) args,
    (∀ name, Carries (directory.resolve name) (larger.resolve name)) →
    Carries (body.run ⟨host, env, directory⟩ args) (body.run ⟨host, env, larger⟩ args)

namespace Registry

/-- All bodies of the registry are stable. -/
def Stable (registry : Registry) : Prop :=
  ∀ d ∈ registry.definitions, d.body.Stable

variable {registry larger : Registry}

/-- Each body of a registry is stable, if the registry is. -/
theorem Stable.of_find? (stable : registry.Stable) {signature : Signature} {d : Definition}
    (found : registry.find? signature = some d) : d.body.Stable :=
  stable d (Table.mem_of_find? found)

/-- The body that a function runs is that of a registered definition, and it gets what is bound
and what is given. -/
theorem exists_of_target {f : FunctionValue} {given : List Value} {body : Body} {args : List Arg}
    (h : registry.target f given = .ok (body, args)) :
    given.length = f.missing ∧ args = (f.bound ++ given).map .value ∧
      ∃ d, registry.find? f.signature = some d ∧ d.body = body := by
  unfold target at h
  split at h
  · cases h
  · rename_i complete
    split at h
    · cases h
    · rename_i d found
      cases h
      exact ⟨Decidable.not_not.mp complete, rfl, d, found, rfl⟩

namespace Extends

variable (h : registry.Extends larger)

include h

/-- A function that the smaller registry runs has the same body in the larger one. -/
theorem target (f : FunctionValue) (given : List Value) :
    Carries (registry.target f given) (larger.target f given) := by
  rintro ⟨body, args⟩ hit
  obtain ⟨complete, rfl, d, found, rfl⟩ := exists_of_target hit
  simp only [Registry.target, complete, ne_eq, not_true_eq_false, if_false,
    h.find? f.signature d found]

variable (stable : registry.Stable) {host : Host} {env : Environment}

include stable

/-- **Outcomes are the same.**  The induction is that on the weight of the arguments, by which
calls come to an end; each hand-over is carried over, and so is the call that it leads to. -/
theorem call {body : Body} (bodyStable : body.Stable) (args : List Arg) :
    Carries (registry.call (registry.scope host env) body args)
      (larger.call (larger.scope host env) body args) := by
  have replies : Carries (body.run (registry.scope host env) args)
      (body.run (larger.scope host env) args) := bodyStable host env _ _ args h.resolve
  rw [call_eq, call_eq]
  cases replied : body.run (registry.scope host env) args with
  | error e => exact .error
  | ok reply =>
      rw [replies reply replied]
      match reply with
      | .outcome _ => exact .refl _
      | .apply (.subExpr _) _ => exact .refl _
      | .apply (.function f) given =>
          dsimp only
          cases hit : registry.target f given with
          | error e => exact .error
          | ok next =>
              obtain ⟨body', args'⟩ := next
              rw [h.target f given _ hit]
              obtain ⟨-, -, d, found, rfl⟩ := exists_of_target hit
              have _lighter := lighter_of_target replied hit
              exact call (stable.of_find? found) args'
termination_by Arg.weightAll args

theorem apply (callee : Callee) (given : List Value) :
    Carries (registry.apply (registry.scope host env) callee given)
      (larger.apply (larger.scope host env) callee given) := by
  cases callee with
  | subExpr s => exact .refl _
  | function f =>
      unfold Registry.apply
      dsimp only
      cases hit : registry.target f given with
      | error e => exact .error
      | ok next =>
          obtain ⟨body, args⟩ := next
          rw [h.target f given _ hit]
          obtain ⟨-, -, d, found, rfl⟩ := exists_of_target hit
          exact h.call stable (stable.of_find? found) args

end Extends

end Registry

end RuleEngine
