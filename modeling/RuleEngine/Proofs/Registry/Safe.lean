import RuleEngine.Proofs.Operation.Sound
import RuleEngine.Proofs.Registry.Rules
import RuleEngine.Registry.Call

/-!
# Safe registries

A registry is safe if each body does its part: given as many sound arguments as
its signature says, it gives a sound reply or fails properly.  Then all calls are
safe, however often bodies hand over to each other.  The same is asked of
desugarings: what they make is registered.

Nothing is assumed about a body beyond that, so the lemmas hold of registries with
additions of any kind, as long as these do their part.  That the bodies of the standard
library do is a matter of looking at each of them, which is done elsewhere.

## Main definitions

* `Body.Safe`, `Definition.Closed` - what is asked of a definition.
* `Registry.Safe` - what is asked of a registry.

## Main statements

* `Registry.safely_call`, `Registry.safely_apply` - calls in a safe registry give
  sound outcomes or fail properly.
* `Pool.sound_of_build` - the nodes made by parsing are registered.
-/

namespace RuleEngine

/-- Given so many sound arguments, the body gives a sound reply or fails properly. -/
def Body.Safe (registry : Registry) (body : Body) (arity : Nat) : Prop :=
  ∀ (pool : Pool) (scope : Scope) (args : List Arg), scope.Sound registry pool →
    args.length = arity → (∀ arg ∈ args, arg.Sound registry pool) →
    Safely (Reply.Sound registry pool) (body.run scope args)

/-- What the desugaring makes of the definition's nodes is registered. -/
def Definition.Closed (registry : Registry) (d : Definition) : Prop :=
  ∀ (pool : Pool) (plain node : Node), plain.signature = d.signature →
    d.nodeFor pool plain = .ok node → ∃ d', registry.find? node.signature = some d'

namespace Registry

/-- What is asked of the definitions of a registry. -/
structure Safe (registry : Registry) : Prop where
  /-- The rules of registration were kept. -/
  regular : registry.Regular
  /-- Every body does its part. -/
  body : ∀ d ∈ registry.definitions, d.body.Safe registry d.signature.arity
  /-- Every desugaring does. -/
  closed : ∀ d ∈ registry.definitions, d.Closed registry

variable {registry : Registry} {pool : Pool} {scope : Scope}

theorem Safe.body_of_find? (safe : registry.Safe) {signature : Signature} {d : Definition}
    (h : registry.find? signature = some d) : d.body.Safe registry signature.arity := by
  have := safe.body d (Table.mem_of_find? h)
  rwa [signature_of_find? h] at this

/-- What a body may look at is sound, if the host and the environment are; the directory lists
registered functions only, under a regular registry. -/
theorem sound_scope (regular : registry.Regular) {host : Host} {env : Environment}
    (hhost : host.Sound registry pool) (henv : Environment.Sound registry pool env) :
    (registry.scope host env).Sound registry pool :=
  ⟨hhost, henv, regular.function⟩

/-! ### Calls -/

/-- The body that applying a sound function runs gets as many arguments as it takes, and all of
them are sound.  That a function is registered is part of its being sound. -/
theorem safely_target (safe : registry.Safe) {f : FunctionValue} {given : List Value}
    (hf : f.toValue.Sound registry pool) (hgiven : ∀ v ∈ given, v.Sound registry pool) :
    Safely (fun p => p.1.Safe registry p.2.length ∧ ∀ arg ∈ p.2, arg.Sound registry pool)
      (registry.target f given) := by
  unfold target
  split
  · trivial
  · rename_i complete
    cases hf with
    | function registered within hbound =>
        obtain ⟨d, found, -⟩ := registered
        simp only [found]
        refine ⟨?_, ?_⟩
        · have length : (f.bound ++ given).length = f.signature.arity := by
            simp only [FunctionValue.missing, ne_eq, Decidable.not_not] at complete
            rw [List.length_append]
            omega
          rw [List.length_map, length]
          exact safe.body_of_find? found
        · intro arg harg
          obtain ⟨v, hv, rfl⟩ := List.mem_map.mp harg
          rcases List.mem_append.mp hv with hv | hv
          · exact hbound v hv
          · exact hgiven v hv

/-- **Calls are safe.**  The induction is that on the weight of the arguments, by which calls come
to an end; a sound reply that hands over leads to a call of another safe body. -/
theorem safely_call (safe : registry.Safe) (hscope : scope.Sound registry pool) {body : Body}
    {args : List Arg} (hbody : body.Safe registry args.length)
    (hargs : ∀ arg ∈ args, arg.Sound registry pool) :
    Safely (Outcome.Sound registry pool) (registry.call scope body args) := by
  have replies := hbody pool scope args hscope rfl hargs
  rw [call_eq]
  cases replied : body.run scope args with
  | error e =>
      rw [replied] at replies
      exact replies
  | ok reply =>
      rw [replied] at replies
      match reply, replied, replies with
      | .outcome _, _, sound => exact sound
      | .apply (.subExpr _) _, _, handed =>
          exact SubExpression.safely_apply handed.1 hscope.env handed.2
      | .apply (.function f) given, replied, handed =>
          have next := safely_target safe handed.1 handed.2
          dsimp only
          cases hit : registry.target f given with
          | error e =>
              rw [hit] at next
              exact next
          | ok target =>
              obtain ⟨body', args'⟩ := target
              rw [hit] at next
              -- A hand-over passes on less than the body got.
              have _lighter := lighter_of_target replied hit
              exact safely_call safe hscope next.1 next.2
termination_by Arg.weightAll args

theorem safely_apply (safe : registry.Safe) (hscope : scope.Sound registry pool) {callee : Callee}
    {given : List Value} (hcallee : callee.Sound registry pool)
    (hgiven : ∀ v ∈ given, v.Sound registry pool) :
    Safely (Outcome.Sound registry pool) (registry.apply scope callee given) := by
  cases callee with
  | subExpr s => exact SubExpression.safely_apply hcallee hscope.env hgiven
  | function f =>
      have next := safely_target safe hcallee hgiven
      rw [apply]
      split
      · rename_i e missed
        rw [missed] at next
        exact next
      · rename_i body args hit
        rw [hit] at next
        exact safely_call safe hscope next.1 next.2

end Registry

/-! ### Pools -/

/-- Every node of the pool refers to earlier ones and is registered. -/
structure Pool.Sound (registry : Registry) (pool : Pool) : Prop where
  /-- References lead to earlier nodes. -/
  acyclic : pool.Acyclic
  /-- Operations are registered. -/
  registered : ∀ i node, pool.get? i = some node → ∃ d, registry.find? node.signature = some d

/-- **The nodes made by parsing are sound.**  Each of them comes from a registered operator,
either as it was written or as its desugaring made it, and what desugarings make is registered as
well. -/
theorem Pool.sound_of_build {registry : Registry} (safe : registry.Safe)
    {category : Parse.Category} {d : Parse.Phrase category} {parsed : Parse.Parsed}
    (h : d.build registry .empty = .ok parsed) : parsed.pool.Sound registry := by
  refine Parse.Phrase.build_preserves ?_ h ⟨acyclic_empty, fun _ _ hi => by cases hi⟩
  intro name operands pool parsed applied sound
  obtain ⟨d, node, found, made, accepted, rfl⟩ := Parse.applyOperator_eq_ok_iff.mp applied
  refine ⟨sound.acyclic.push accepted, ?_⟩
  intro i other hi
  rw [get?_push] at hi
  split at hi
  · cases hi
    refine safe.closed d (Table.mem_of_find? found) pool ⟨name, operands⟩ node ?_ made
    exact (Registry.signature_of_find? found).symm
  · exact sound.registered i other hi

end RuleEngine
