import Mathlib.Data.List.Basic
import RuleEngine.Proofs.Registry.Safe

/-!
# The standard library is safe

Every standard body is given sound arguments, as many as its signature says, and
gives a sound reply or fails properly.  The ways of taking arguments apart come
first; each body is then followed through its steps.

The proofs have the shape of the bodies.  A body takes its arguments apart, checks what
it has found and replies, and each of these steps is one link in a chain of safe
computations.  Where a body complains, the complaint is looked up among the assertions,
and it is none of them.  The assertions themselves are about numbers of arguments, and
there a body is given as many as its signature says.

For desugarings it is enough to know the signature of the nodes that they make, since a
node is sound if its signature is registered.

## Main definitions

* `Registration.Safe` - what is registered has a safe body and is closed.

## Main statements

* `Standard.safe_library` - everything in the standard library is safe.
* `Registry.safe_standard` - hence the standard registry is.
-/

namespace RuleEngine

namespace Standard

variable {registry : Registry} {pool : Pool} {scope : Scope} {args : List Arg}

/-! ### Taking arguments apart -/

section Arguments

variable (hargs : ∀ arg ∈ args, arg.Sound registry pool)

include hargs

/-- Sound arguments have sound values, as many as there are; one that is not evaluated is the
author's to correct. -/
theorem safely_evaluated :
    Safely (fun vs => vs.length = args.length ∧ ∀ v ∈ vs, v.Sound registry pool)
      (evaluated args) := by
  induction args with
  | nil => exact ⟨rfl, nofun⟩
  | cons arg rest ih =>
      have first := safely_toValue (hargs arg List.mem_cons_self)
      have others := ih fun a ha => hargs a (List.mem_cons_of_mem _ ha)
      rw [evaluated]
      split
      · rename_i e failed
        rw [failed] at first
        exact first
      · rename_i v hv
        rw [hv] at first
        split
        · rename_i e failed
          rw [failed] at others
          exact others
        · rename_i vs hvs
          rw [hvs] at others
          refine ⟨congrArg (· + 1) others.1, ?_⟩
          intro w hw
          rcases List.mem_cons.mp hw with rfl | hw
          · exact first
          · exact others.2 w hw

/-- One argument is taken as one value.  The complaint about a wrong number of them is an
assertion, so the number has to be known. -/
theorem safely_single (one : args.length = 1) :
    Safely (Value.Sound registry pool) (single args) := by
  have all := safely_evaluated hargs
  unfold single
  split
  · rename_i e failed
    rw [failed] at all
    exact all
  · rename_i v hv
    rw [hv] at all
    exact all.2 v (List.mem_singleton_self v)
  · rename_i vs other hvs
    rw [hvs] at all
    obtain ⟨v, rfl⟩ := List.length_eq_one_iff.mp (all.1.trans one)
    exact absurd rfl (other v)

theorem safely_pair (two : args.length = 2) :
    Safely (fun p => p.1.Sound registry pool ∧ p.2.Sound registry pool) (pair args) := by
  have all := safely_evaluated hargs
  unfold pair
  split
  · rename_i e failed
    rw [failed] at all
    exact all
  · rename_i a b hab
    rw [hab] at all
    exact ⟨all.2 a (by simp), all.2 b (by simp)⟩
  · rename_i vs other hvs
    rw [hvs] at all
    obtain ⟨a, b, rfl⟩ := List.length_eq_two.mp (all.1.trans two)
    exact absurd rfl (other a b)

/-- Two arguments are taken as a value and an argument that may wait. -/
theorem safely_pairWithArg (two : args.length = 2) :
    Safely (fun p => p.1.Sound registry pool ∧ p.2.Sound registry pool) (pairWithArg args) := by
  obtain ⟨left, right, rfl⟩ := List.length_eq_two.mp two
  refine (safely_toValue (hargs left (by simp))).bind fun v hv => ?_
  exact ⟨hv, hargs right (by simp)⟩

end Arguments

/-- A value is a literal, or the author is told that it must be one. -/
theorem safely_literal {op : String} {v : Value}
    (proper : "operand of `" ++ op ++ "` must be a literal" ∉ assertions) :
    Safely (fun _ => True) (literal op v) := by
  unfold literal
  split
  · trivial
  · exact proper

/-- A value is a sound callee, or the author is told that it cannot be called.  A name stands for
a function that is registered. -/
theorem safely_callee {op : String} {v : Value} (hscope : scope.Sound registry pool)
    (hv : v.Sound registry pool)
    (proper : "LHS operand not supported by `" ++ op ++ "`" ∉ assertions) :
    Safely (Callee.Sound registry pool) (scope.callee v op) := by
  unfold Scope.callee
  split
  · exact hv
  · exact hv
  · exact (safely_resolve hscope _).map fun _ hf => hf
  · exact proper

/-- A body that hands nothing over is safe if its outcome is.  All bodies of the library but three
are of this kind. -/
theorem safe_direct {run : Scope → List Arg → Except OperationError Outcome} {arity : Nat}
    (h : ∀ pool scope args, scope.Sound registry pool → args.length = arity →
      (∀ arg ∈ args, arg.Sound registry pool) →
      Safely (Outcome.Sound registry pool) (run scope args)) :
    (Body.direct run).Safe registry arity :=
  fun pool scope args hscope length hargs =>
    (h pool scope args hscope length hargs).map fun _ ho => ho

/-- A truth value is a sound outcome. -/
theorem safely_bool (b : Bool) :
    Safely (Outcome.Sound registry pool) (pure (.value (.bool b))) :=
  Value.Sound.bool b

/-! ### Truth -/

variable (registry)

/-- Any value has a truth, so there is nothing that could fail. -/
theorem safe_truth : truth.Safe registry 1 := by
  refine safe_direct fun pool scope args _ one hargs => ?_
  exact (safely_single hargs one).bind fun v _ => safely_bool _

theorem safe_negation : negation.Safe registry 1 := by
  refine safe_direct fun pool scope args _ one hargs => ?_
  exact (safely_single hargs one).bind fun v _ => safely_bool _

theorem safe_exclusion : exclusion.Safe registry 2 := by
  refine safe_direct fun pool scope args _ two hargs => ?_
  exact (safely_pair hargs two).bind fun p _ => safely_bool _

theorem safe_equality : equality.Safe registry 2 := by
  refine safe_direct fun pool scope args _ two hargs => ?_
  exact (safely_pair hargs two).bind fun p _ => safely_bool _

/-- A conjunction has a sound outcome: its first operand, or a demand for the second one as it was
given. -/
theorem safe_conjunction : conjunction.Safe registry 2 := by
  refine safe_direct fun pool scope args _ two hargs => ?_
  refine (safely_pairWithArg hargs two).bind fun p hp => ?_
  obtain ⟨left, right⟩ := p
  dsimp only
  split
  · exact safely_outcome hp.2
  · exact hp.1

/-- So has a disjunction: its first operand, or a demand for the second one. -/
theorem safe_disjunction : disjunction.Safe registry 2 := by
  refine safe_direct fun pool scope args _ two hargs => ?_
  refine (safely_pairWithArg hargs two).bind fun p hp => ?_
  obtain ⟨left, right⟩ := p
  dsimp only
  split
  · exact hp.1
  · exact safely_outcome hp.2

/-! ### Conditionals -/

/-- A conditional demands one of its branches as it was given. -/
theorem safe_branch : branch.Safe registry 3 := by
  refine safe_direct fun pool scope args _ three hargs => ?_
  obtain ⟨condition, first, second, rfl⟩ := List.length_eq_three.mp three
  refine (safely_toValue (hargs condition (by simp))).bind fun v _ => ?_
  split
  · exact safely_outcome (hargs first (by simp))
  · exact safely_outcome (hargs second (by simp))

/-- A marker that is evaluated complains about its place, which is the author's to correct. -/
theorem safe_misplaced {complaint : String} (proper : complaint ∉ assertions) (arity : Nat) :
    (misplaced complaint).Safe registry arity := by
  refine safe_direct fun pool scope args _ _ hargs => ?_
  exact (safely_evaluated hargs).bind fun vs _ => safely_invalid proper

/-! ### Look-ups -/

/-- Data of the host is sound, if the host is. -/
theorem safe_dereference : dereference.Safe registry 1 := by
  refine safe_direct fun pool scope args hscope one hargs => ?_
  refine (safely_single hargs one).bind fun v _ => ?_
  refine (safely_literal (by decide)).bind fun key _ => ?_
  split
  · rename_i v hv
    exact hscope.host _ v hv
  · trivial

/-- So is the value of a variable, if the environment is. -/
theorem safe_variableValue : variableValue.Safe registry 1 := by
  refine safe_direct fun pool scope args hscope one hargs => ?_
  refine (safely_single hargs one).bind fun v _ => ?_
  refine (safely_literal (by decide)).bind fun name _ => ?_
  split
  · rename_i v hv
    exact hscope.env _ v hv
  · trivial

/-- A reserved word is known, or the author is told that it is not. -/
theorem safe_reserved : reserved.Safe registry 1 := by
  refine safe_direct fun pool scope args _ one hargs => ?_
  refine (safely_single hargs one).bind fun v _ => ?_
  split
  · trivial
  · exact safely_invalid (by decide)

/-- Membership is asked of a list, or the author is told that it must be. -/
theorem safe_membership : membership.Safe registry 2 := by
  refine safe_direct fun pool scope args _ two hargs => ?_
  refine (safely_pair hargs two).bind fun p _ => ?_
  split
  · exact safely_bool _
  · exact safely_invalid (by decide)

/-! ### Texts and lists -/

/-- Two arguments are two literals, or the author is told that they must be. -/
theorem safely_literalPair {name : String} (hargs : ∀ arg ∈ args, arg.Sound registry pool)
    (two : args.length = 2) (proper : "`" ++ name ++ "` expects two literals" ∉ assertions) :
    Safely (fun _ => True) (literalPair name args) := by
  refine (safely_pair hargs two).bind fun p _ => ?_
  split
  · trivial
  · exact safely_invalid proper

theorem safe_startsWith : startsWith.Safe registry 2 := by
  refine safe_direct fun pool scope args _ two hargs => ?_
  exact (safely_literalPair registry hargs two (by decide)).bind fun p _ => safely_bool _

theorem safe_endsWith : endsWith.Safe registry 2 := by
  refine safe_direct fun pool scope args _ two hargs => ?_
  exact (safely_literalPair registry hargs two (by decide)).bind fun p _ => safely_bool _

/-- Two texts make a text and two lists make a list, of elements that were there. -/
theorem safe_concatenation : concatenation.Safe registry 2 := by
  refine safe_direct fun pool scope args _ two hargs => ?_
  refine (safely_pair hargs two).bind fun p hp => ?_
  split
  · exact Value.Sound.str _
  · rename_i a b
    refine Value.Sound.list fun v hv => ?_
    obtain ⟨ha, hb⟩ := hp
    cases ha with
    | list ha =>
        cases hb with
        | list hb =>
            rcases List.mem_append.mp hv with hv | hv
            · exact ha v hv
            · exact hb v hv
  · exact safely_invalid (by decide)

/-! ### Functions -/

/-- A sub-expression has the body that was braced, which leads into the pool. -/
theorem safe_subExpression : subExpression.Safe registry 2 := by
  refine safe_direct fun pool scope args _ _ hargs => ?_
  split
  · rename_i name body rest _
    exact Value.Sound.subExpr (hargs (.block body) (by simp))
  · exact safely_invalid (by decide)

/-- A function with another argument bound is sound; a sub-expression has nothing that could be
bound. -/
theorem safe_binding : binding.Safe registry 2 := by
  refine safe_direct fun pool scope args hscope two hargs => ?_
  refine (safely_pair hargs two).bind fun p hp => ?_
  obtain ⟨f, arg⟩ := p
  refine (safely_callee hscope hp.1 (by decide)).bind fun callee hcallee => ?_
  cases callee with
  | function f => exact (FunctionValue.safely_bind hcallee hp.2).bind fun _ hg => hg
  | subExpr s => exact safely_invalid (by decide)

/-- Joined arguments are never empty: there are two of them, or one more than before. -/
theorem safe_joining : joining.Safe registry 2 := by
  refine safe_direct fun pool scope args _ two hargs => ?_
  refine (safely_pair hargs two).bind fun p hp => ?_
  split
  · rename_i items right
    cases hp.1 with
    | args nonempty hitems =>
        refine Value.Sound.args (by simp) fun v hv => ?_
        rcases List.mem_append.mp hv with hv | hv
        · exact hitems v hv
        · rw [List.mem_singleton.mp hv]
          exact hp.2
  · rename_i left right _
    refine Value.Sound.args (by simp) fun v hv => ?_
    rcases List.mem_cons.mp hv with rfl | hv
    · exact hp.1
    · rw [List.mem_singleton.mp hv]
      exact hp.2

variable {registry} in
/-- Joined values are sound, and there is one at least.  A value that is no list of arguments
counts as the only one. -/
theorem sound_joined {v : Value} (h : v.Sound registry pool) :
    joined v ≠ [] ∧ ∀ w ∈ joined v, w.Sound registry pool := by
  cases h with
  | args nonempty hitems => exact ⟨nonempty, hitems⟩
  | bool b => exact ⟨by simp [joined], by simpa [joined] using Value.Sound.bool b⟩
  | str s => exact ⟨by simp [joined], by simpa [joined] using Value.Sound.str s⟩
  | list hitems => exact ⟨by simp [joined], by simpa [joined] using Value.Sound.list hitems⟩
  | function registered within hbound =>
      exact ⟨by simp [joined], by simpa [joined] using .function registered within hbound⟩
  | subExpr within => exact ⟨by simp [joined], by simpa [joined] using .subExpr within⟩

/-- What is applied gets one argument, and is handed over with it.  So the callee has to be sound
as well. -/
theorem safe_application : application.Safe registry 2 := by
  intro pool scope args hscope two hargs
  have both := safely_pair hargs two
  simp only [application]
  split
  · rename_i e failed
    rw [failed] at both
    exact both
  · rename_i f arg hpair
    rw [hpair] at both
    have named : Safely (Callee.Sound registry pool) (scope.callee f "apply") :=
      safely_callee hscope both.1 (by decide)
    split
    · rename_i e failed
      rw [failed] at named
      exact named
    · rename_i callee hcallee
      rw [hcallee] at named
      split
      · exact ⟨named, by simpa using both.2⟩
      · exact safely_invalid (by decide)

theorem safe_joinedCall : joinedCall.Safe registry 2 := by
  intro pool scope args hscope two hargs
  have both := safely_pair hargs two
  simp only [joinedCall]
  split
  · rename_i e failed
    rw [failed] at both
    exact both
  · rename_i f rest hpair
    rw [hpair] at both
    have named : Safely (Callee.Sound registry pool) (scope.callee f "callWith") :=
      safely_callee hscope both.1 (by decide)
    split
    · rename_i e failed
      rw [failed] at named
      exact named
    · rename_i callee hcallee
      rw [hcallee] at named
      exact ⟨named, (sound_joined both.2).2⟩

/-- A call in front takes the callee from the joined values, of which there is a first one.  The
complaint about a missing one is an assertion that is never seen. -/
theorem safe_prefixCall : prefixCall.Safe registry 1 := by
  intro pool scope args hscope one hargs
  have whole := safely_single hargs one
  simp only [prefixCall]
  split
  · rename_i e failed
    rw [failed] at whole
    exact whole
  · rename_i all hall
    rw [hall] at whole
    obtain ⟨nonempty, sound⟩ := sound_joined whole
    split
    · -- Values are joined in pairs, so there is a first one.
      rename_i missing
      exact absurd missing nonempty
    · rename_i f rest hjoined
      rw [hjoined] at sound
      have named : Safely (Callee.Sound registry pool) (scope.callee f "call") :=
        safely_callee hscope (sound f List.mem_cons_self) (by decide)
      split
      · rename_i e failed
        rw [failed] at named
        exact named
      · rename_i callee hcallee
        rw [hcallee] at named
        refine ⟨named, ?_⟩
        intro v hv
        exact sound v (List.mem_cons_of_mem _ hv)

/-! ### Elements of lists -/

/-- To go through a list is to demand sound elements and a sound callee. -/
theorem safe_traversal (how : Traversal) : (traversal how).Safe registry 2 := by
  refine safe_direct fun pool scope args hscope two hargs => ?_
  refine (safely_pair hargs two).bind fun p hp => ?_
  split
  · rename_i items f
    have proper : "LHS operand not supported by `" ++ how.render ++ "`" ∉ assertions := by
      cases how <;> decide
    refine (safely_callee hscope hp.2 proper).bind fun callee hcallee => ?_
    split
    · cases hp.1 with
      | list hitems => exact ⟨hitems, hcallee⟩
    · exact safely_invalid (by cases how <;> decide)
  · exact safely_invalid (by cases how <;> decide)

/-- A list is reduced to a truth value, in one of two ways that are known by name. -/
theorem safe_reduction : reduction.Safe registry 2 := by
  refine safe_direct fun pool scope args _ two hargs => ?_
  refine (safely_pair hargs two).bind fun p _ => ?_
  split
  · split
    · exact safely_bool _
    · split
      · exact safely_bool _
      · trivial
  · exact safely_invalid (by decide)

end Standard

/-! ### The library -/

/-- What is registered, if anything, has a safe body and is closed. -/
def Registration.Safe (registry : Registry) (r : Registration) : Prop :=
  ∀ d, r.definition? = some d → registry.find? d.signature = some d →
    d.body.Safe registry d.signature.arity ∧ d.Closed registry

namespace Standard

/-- A function is safe if its body is.  It has no desugaring. -/
theorem safe_function {registry : Registry} {name : String} {arity : Nat} {body : Body}
    (h : body.Safe registry arity) : (Registration.function name arity body).Safe registry := by
  intro d hd found
  cases hd
  refine ⟨h, fun pool plain node same made => ?_⟩
  cases made
  exact ⟨_, same ▸ found⟩

theorem safe_operator {registry : Registry} {name : String} {fixity : Fixity} {body : Body}
    (h : body.Safe registry fixity.arity) :
    (Registration.operator name fixity (some body) none).Safe registry := by
  intro d hd found
  cases hd
  refine ⟨h, fun pool plain node same made => ?_⟩
  cases made
  exact ⟨_, same ▸ found⟩

/-- An operator with a desugaring, of which all nodes have the same signature, is safe if that
signature is registered. -/
theorem safe_desugared {registry : Registry} {name : String} {fixity : Fixity} {body : Body}
    {desugar : Desugaring} {signature : Signature} (h : body.Safe registry fixity.arity)
    (found : ∃ d, registry.find? signature = some d)
    (makes : ∀ pool plain node, plain.signature = ⟨name, fixity.arity⟩ →
      desugar pool plain = .ok node → node.signature = signature) :
    (Registration.operator name fixity (some body) (some desugar)).Safe registry := by
  intro d hd _
  cases hd
  refine ⟨h, fun pool plain node same made => ?_⟩
  rw [makes pool plain node same made]
  exact found

theorem signature_deferSecondAs {name : String} {pool : Pool} {plain node : Node}
    (h : deferSecondAs name pool plain = .ok node) : node.signature = ⟨name, 2⟩ := by
  unfold deferSecondAs at h
  split at h
  · cases h
    rfl
  · cases h

theorem signature_deferSecond {name : String} {pool : Pool} {plain node : Node}
    (same : plain.signature = ⟨name, 2⟩) (h : deferSecond pool plain = .ok node) :
    node.signature = ⟨name, 2⟩ := by
  have named : plain.name = name := congrArg Signature.name same
  rw [signature_deferSecondAs h, named]

theorem signature_fromMarked {pool : Pool} {plain node : Node}
    (h : fromMarked pool plain = .ok node) : node.signature = ⟨"if", 3⟩ := by
  unfold fromMarked at h
  repeat' split at h
  all_goals cases h
  rfl

theorem signature_fromJoined {pool : Pool} {plain node : Node}
    (h : fromJoined pool plain = .ok node) : node.signature = ⟨"if", 3⟩ := by
  unfold fromJoined at h
  repeat' split at h
  all_goals cases h
  rfl

theorem signature_fromPlain {pool : Pool} {plain node : Node}
    (h : fromPlain pool plain = .ok node) : node.signature = ⟨"if", 3⟩ := by
  unfold fromPlain at h
  repeat' split at h
  all_goals cases h
  rfl

theorem safe_truthOperations : ∀ r ∈ truthOperations, r.Safe .standard := by
  have waitingAnd : ∃ d, Registry.standard.find? ⟨"&&", 2⟩ = some d := ⟨_, rfl⟩
  have waitingOr : ∃ d, Registry.standard.find? ⟨"||", 2⟩ = some d := ⟨_, rfl⟩
  simp only [truthOperations, List.forall_mem_cons]
  refine ⟨safe_operator (safe_truth _), safe_operator (safe_negation _),
    safe_operator (safe_exclusion _), safe_operator (safe_equality _), ?_, ?_, ?_, ?_,
    safe_function (safe_negation _), nofun⟩
  · exact safe_desugared (safe_conjunction _) waitingAnd fun _ _ _ => signature_deferSecond
  · exact safe_desugared (safe_disjunction _) waitingOr fun _ _ _ => signature_deferSecond
  · exact safe_desugared (safe_conjunction _) waitingAnd fun _ _ _ _ => signature_deferSecondAs
  · exact safe_desugared (safe_disjunction _) waitingOr fun _ _ _ _ => signature_deferSecondAs

theorem safe_conditionalOperations : ∀ r ∈ conditionalOperations, r.Safe .standard := by
  have conditionalNode : ∃ d, Registry.standard.find? ⟨"if", 3⟩ = some d := ⟨_, rfl⟩
  simp only [conditionalOperations, List.forall_mem_cons]
  refine ⟨?_, safe_operator (safe_misplaced _ (by decide) _),
    safe_operator (safe_misplaced _ (by decide) _),
    safe_operator (safe_misplaced _ (by decide) _), ?_, ?_, safe_operator (safe_branch _), nofun⟩
  · exact safe_desugared (safe_branch _) conditionalNode fun _ _ _ _ => signature_fromMarked
  · exact safe_desugared (safe_misplaced _ (by decide) _) conditionalNode
      fun _ _ _ _ => signature_fromJoined
  · exact safe_desugared (safe_branch _) conditionalNode fun _ _ _ _ => signature_fromPlain

theorem safe_lookupOperations : ∀ r ∈ lookupOperations, r.Safe .standard := by
  simp only [lookupOperations, List.forall_mem_cons]
  exact ⟨safe_operator (safe_dereference _), safe_operator (safe_variableValue _),
    safe_operator (safe_reserved _), safe_operator (safe_membership _), nofun⟩

theorem safe_sequenceFunctions : ∀ r ∈ sequenceFunctions, r.Safe .standard := by
  simp only [sequenceFunctions, List.forall_mem_cons]
  exact ⟨safe_function (safe_startsWith _), safe_function (safe_endsWith _),
    safe_function (safe_concatenation _), nofun⟩

theorem safe_applicationOperations : ∀ r ∈ applicationOperations, r.Safe .standard := by
  simp only [applicationOperations, List.forall_mem_cons]
  exact ⟨safe_operator (safe_subExpression _), safe_operator (safe_binding _),
    safe_operator (safe_application _), safe_operator (safe_joining _),
    safe_operator (safe_joinedCall _), safe_operator (safe_prefixCall _), nofun⟩

theorem safe_traversalOperations : ∀ r ∈ traversalOperations, r.Safe .standard := by
  simp only [traversalOperations, List.forall_mem_cons]
  exact ⟨safe_operator (safe_traversal _ .map), safe_operator (safe_traversal _ .filter),
    safe_operator (safe_traversal _ .flatMap), safe_operator (safe_reduction _), nofun⟩

/-- **Everything in the standard library is safe**, group by group. -/
theorem safe_library : ∀ r ∈ library, r.Safe .standard := by
  simp only [library, List.forall_mem_append]
  exact ⟨⟨⟨⟨⟨safe_truthOperations, safe_conditionalOperations⟩, safe_lookupOperations⟩,
    safe_sequenceFunctions⟩, safe_applicationOperations⟩, safe_traversalOperations⟩

end Standard

/-- **The standard registry is safe.**  Each of its definitions was registered, and everything
that was registered is safe. -/
theorem Registry.safe_standard : Registry.standard.Safe := by
  have all : ∀ d ∈ Registry.standard.definitions,
      d.body.Safe .standard d.signature.arity ∧ d.Closed .standard := by
    intro d mem
    obtain ⟨r, hr, hd⟩ := exists_registration Standard.build_library mem
    refine Standard.safe_library r hr d hd ?_
    rw [Registration.signature_of_definition? hd]
    exact find?_of_build Standard.build_library hr hd
  exact ⟨regular_standard, fun d mem => (all d mem).1, fun d mem => (all d mem).2⟩

end RuleEngine
