import RuleEngine.Proofs.Operation.Alike
import RuleEngine.Standard.Library

/-!
# The standard library does not look at operands

Every standard body is followed on alike arguments: it takes the same branches,
and what it replies is alike.  Three facts about values are all that it needs:
alike values have the same constructor, the same truth, and the same equalities.

Only `=>` turns an operand that waits into the body of a value, and only the
operators on lists and `$` ask for a list to be gone through.  Where a comparison of
evaluations does not allow one or the other, these operators must not occur, and nothing
has to be shown of them.

A body that hands over is uniform if it hands over to alike callees and with alike
arguments; what these come to is no matter of the body, and is dealt with where calls
are.  The proofs go through the same steps as the bodies do, on both sides at once.

## Main statements

* `Standard.uniform_library` - every standard body is uniform, those named above
  if the likeness allows what they do.
* `Registry.find?_uniform` - hence what the standard registry finds is.
-/

namespace RuleEngine

namespace Standard

variable {L : Likeness} {A : Requests} {v w : Value} {args args' : List Arg}

/-! ### Taking arguments apart -/

section Arguments

variable (hargs : List.Forall₂ (Arg.Alike L A) args args')

include hargs

/-- Alike arguments have alike values, or both have one that is not evaluated. -/
theorem matches_evaluated : Matches (OperationError.Alike L A)
    (List.Forall₂ (Value.Alike L)) (evaluated args) (evaluated args') := by
  induction hargs with
  | nil => exact .nil
  | @cons a b rest rest' first _ ih =>
      have read := Arg.matches_toValue first
      rw [evaluated, evaluated]
      cases value : a.toValue with
      | error e =>
          obtain ⟨e', value', same⟩ := read.exists_error value
          rw [value']
          exact same
      | ok v =>
          obtain ⟨w, value', same⟩ := read.exists_ok value
          rw [value']
          dsimp only
          cases values : evaluated rest with
          | error e =>
              obtain ⟨e', values', same⟩ := ih.exists_error values
              rw [values']
              exact same
          | ok vs =>
              obtain ⟨ws, values', others⟩ := ih.exists_ok values
              rw [values']
              exact .cons same others

theorem matches_single : Matches (OperationError.Alike L A) (Value.Alike L) (single args)
    (single args') := by
  have all := matches_evaluated hargs
  unfold single
  cases values : evaluated args with
  | error e =>
      obtain ⟨e', values', same⟩ := all.exists_error values
      rw [values']
      exact same
  | ok vs =>
      obtain ⟨ws, values', same⟩ := all.exists_ok values
      rw [values']
      match vs, ws, same with
      | [], [], _ => exact .invalid .nil
      | [_], [_], .cons first _ => exact first
      | _ :: _ :: _, _ :: _ :: _, same => exact .invalid (List.forall₂_drop 2 same)

theorem matches_pair : Matches (OperationError.Alike L A)
    (fun p q => p.1.Alike L q.1 ∧ p.2.Alike L q.2) (pair args) (pair args') := by
  have all := matches_evaluated hargs
  unfold pair
  cases values : evaluated args with
  | error e =>
      obtain ⟨e', values', same⟩ := all.exists_error values
      rw [values']
      exact same
  | ok vs =>
      obtain ⟨ws, values', same⟩ := all.exists_ok values
      rw [values']
      match vs, ws, same with
      | [], [], _ => exact .invalid .nil
      | [_], [_], _ => exact .invalid .nil
      | [_, _], [_, _], .cons first (.cons second _) => exact ⟨first, second⟩
      | _ :: _ :: _ :: _, _ :: _ :: _ :: _, same => exact .invalid (List.forall₂_drop 3 same)

/-- Two arguments are taken as a value and an argument that may wait. -/
theorem matches_pairWithArg : Matches (OperationError.Alike L A)
    (fun p q => p.1.Alike L q.1 ∧ p.2.Alike L A q.2) (pairWithArg args) (pairWithArg args') := by
  match args, args', hargs with
  | [_, _], [_, _], .cons left (.cons right _) =>
      exact (Arg.matches_toValue left).bind fun _ _ hv => ⟨hv, right⟩
  | [], [], _ => exact .invalid .nil
  | [_], [_], _ => exact .invalid .nil
  | _ :: _ :: _ :: _, _ :: _ :: _ :: _, hargs =>
      exact (matches_evaluated (List.forall₂_drop 3 hargs)).bind fun _ _ shown => .invalid shown

/-- What is evaluated among some arguments. -/
theorem forall₂_values : List.Forall₂ (Value.Alike L) (args.filterMap Arg.value?)
    (args'.filterMap Arg.value?) := by
  induction hargs with
  | nil => exact .nil
  | cons first _ ih =>
      cases first with
      | value hv => exact .cons hv ih
      | deferred _ _ => exact ih
      | block _ => exact ih

end Arguments

/-- A literal is alike to itself only, so both sides have the same one. -/
theorem matches_literal (op : String) (h : Value.Alike L v w) :
    Matches (OperationError.Alike L A) Eq (literal op v) (literal op w) := by
  have shown : List.Forall₂ (Value.Alike L) [v] [w] := .cons h .nil
  cases h with
  | str s => rfl
  | _ => exact .invalid shown

/-- Names that stand for no function are the same on both sides. -/
theorem alike_of_resolve_eq_error {directory : Directory} {name : String} {e : OperationError}
    (h : directory.resolve name = .error e) : OperationError.Alike L A e e := by
  unfold Directory.resolve at h
  split at h
  split at h
  · cases h
    exact .unknownFunction name
  · cases h
  · split at h
    · cases h
    · cases h
      exact .otherArity _ _

/-- Alike values are alike callees: functions with the same signature, or sub-expressions with
alike bodies.  A name stands for the same function on both sides. -/
theorem matches_callee {scope scope' : Scope} (hscope : Scope.Alike L scope scope') (op : String)
    (h : Value.Alike L v w) : Matches (OperationError.Alike L A) (Callee.Alike L)
      (scope.callee v op) (scope'.callee w op) := by
  have shown : List.Forall₂ (Value.Alike L) [v] [w] := .cons h .nil
  have whole := h
  cases h with
  | function _ _ _ => exact whole
  | subExpr _ => exact whole
  | str name =>
      simp only [Scope.callee, ← hscope.directory]
      cases found : scope.directory.resolve name with
      | error e => exact alike_of_resolve_eq_error found
      | ok f =>
          refine Value.alike_function_iff.mpr ⟨rfl, hscope.callable name f found, ?_⟩
          rw [Directory.bound_of_resolve found]
          exact .nil
  | _ => exact .invalid shown

theorem alike_joined (h : Value.Alike L v w) :
    List.Forall₂ (Value.Alike L) (joined v) (joined w) := by
  have whole := h
  cases h with
  | args length elements => exact Value.alike_args_iff.mp whole
  | _ => exact .cons whole .nil

/-! ### Bodies -/

/-- A body that hands nothing over is uniform if alike arguments have alike outcomes. -/
theorem uniform_direct {run : Scope → List Arg → Except OperationError Outcome}
    (h : ∀ scope scope' args args', Scope.Alike L scope scope' →
      List.Forall₂ (Arg.Alike L A) args args' →
      Matches (OperationError.Alike L A) (Outcome.Alike L A) (run scope args)
        (run scope' args')) : (Body.direct run).Uniform L A :=
  fun scope scope' args args' hscope hargs =>
    (h scope scope' args args' hscope hargs).map fun _ _ => .outcome

/-- Equal truth values are alike. -/
theorem alike_bool {b b' : Bool} (h : b = b') :
    Outcome.Alike L A (.value (.bool b)) (.value (.bool b')) := by
  rw [h]
  exact .value (.bool b')

theorem uniform_truth : truth.Uniform L A := by
  refine uniform_direct fun scope scope' args args' hscope hargs => ?_
  refine (matches_single hargs).bind fun v w h => alike_bool ?_
  rw [← hscope.host, h.isTruthy_eq]

theorem uniform_negation : negation.Uniform L A := by
  refine uniform_direct fun scope scope' args args' hscope hargs => ?_
  refine (matches_single hargs).bind fun v w h => alike_bool ?_
  rw [← hscope.host, h.isTruthy_eq]

theorem uniform_exclusion : exclusion.Uniform L A := by
  refine uniform_direct fun scope scope' args args' hscope hargs => ?_
  refine (matches_pair hargs).bind fun p q h => alike_bool ?_
  rw [← hscope.host, h.1.isTruthy_eq, h.2.isTruthy_eq]

/-- Alike values are equal to alike ones.  This needs different bodies to be alike to different
ones. -/
theorem uniform_equality (injective : L.Injective) : equality.Uniform L A := by
  refine uniform_direct fun scope scope' args args' _ hargs => ?_
  refine (matches_pair hargs).bind fun p q h => alike_bool ?_
  exact decide_eq_decide.mpr (h.1.eq_iff injective h.2)

/-- Both sides ask for the second operand, or neither does, and these are alike operands that
wait. -/
theorem uniform_conjunction : conjunction.Uniform L A := by
  refine uniform_direct fun scope scope' args args' hscope hargs => ?_
  refine (matches_pairWithArg hargs).bind fun p q h => ?_
  obtain ⟨left, right⟩ := p
  obtain ⟨left', right'⟩ := q
  dsimp only
  rw [← hscope.host, ← h.1.isTruthy_eq]
  split
  · exact Arg.matches_outcome h.2
  · exact .value h.1

theorem uniform_disjunction : disjunction.Uniform L A := by
  refine uniform_direct fun scope scope' args args' hscope hargs => ?_
  refine (matches_pairWithArg hargs).bind fun p q h => ?_
  obtain ⟨left, right⟩ := p
  obtain ⟨left', right'⟩ := q
  dsimp only
  rw [← hscope.host, ← h.1.isTruthy_eq]
  split
  · exact .value h.1
  · exact Arg.matches_outcome h.2

theorem uniform_branch : branch.Uniform L A := by
  refine uniform_direct fun scope scope' args args' hscope hargs => ?_
  match args, args', hargs with
  | [_, _, _], [_, _, _], .cons condition (.cons first (.cons second _)) =>
      refine (Arg.matches_toValue condition).bind fun v w h => ?_
      rw [← hscope.host, ← h.isTruthy_eq]
      split
      · exact Arg.matches_outcome first
      · exact Arg.matches_outcome second
  | [], [], _ => exact .invalid .nil
  | [_], [_], _ => exact .invalid .nil
  | [_, _], [_, _], _ => exact .invalid .nil
  | _ :: _ :: _ :: _ :: _, _ :: _ :: _ :: _ :: _, _ => exact .invalid .nil

theorem uniform_misplaced (complaint : String) : (misplaced complaint).Uniform L A := by
  refine uniform_direct fun scope scope' args args' _ hargs => ?_
  exact (matches_evaluated hargs).bind fun _ _ shown => .invalid shown

theorem uniform_dereference : dereference.Uniform L A := by
  refine uniform_direct fun scope scope' args args' hscope hargs => ?_
  refine (matches_single hargs).bind fun v w h => ?_
  refine (matches_literal "*" h).bind fun key _ same => ?_
  subst same
  rw [← hscope.host]
  cases found : scope.host.get? key with
  | none => exact .absentKey key
  | some u => exact .value (hscope.data key u found)

theorem uniform_variableValue : variableValue.Uniform L A := by
  refine uniform_direct fun scope scope' args args' hscope hargs => ?_
  refine (matches_single hargs).bind fun v w h => ?_
  refine (matches_literal "v" h).bind fun name _ same => ?_
  subst same
  have values := hscope.env name
  generalize scope.env.get? name = found at values ⊢
  generalize scope'.env.get? name = found' at values ⊢
  cases values with
  | none => exact .unboundName name
  | some same => exact .value same

/-- The keys of the host are gone through like a list, if that is allowed. -/
theorem uniform_reserved (loops : A.loops) : reserved.Uniform L A := by
  refine uniform_direct fun scope scope' args args' _ hargs => ?_
  refine (matches_single hargs).bind fun v w h => ?_
  simp only [h.eq_str_iff]
  split
  · exact .demand (.keys loops)
  · exact .invalid (.cons h .nil)

/-- A value is in a list if the value that is alike to it is in the list that is alike. -/
theorem contains_eq (injective : L.Injective) {vs ws : List Value} (h : Value.Alike L v w)
    (items : List.Forall₂ (Value.Alike L) vs ws) : vs.contains v = ws.contains w := by
  induction items with
  | nil => rfl
  | cons first _ ih =>
      rw [List.contains_cons, List.contains_cons, ih]
      congr 1
      exact decide_eq_decide.mpr (h.eq_iff injective first)

theorem uniform_membership (injective : L.Injective) : membership.Uniform L A := by
  refine uniform_direct fun scope scope' args args' _ hargs => ?_
  refine (matches_pair hargs).bind fun p q h => ?_
  obtain ⟨needle, items⟩ := p
  obtain ⟨needle', items'⟩ := q
  obtain ⟨first, second⟩ := h
  have shown : List.Forall₂ (Value.Alike L) [needle, items] [needle', items'] :=
    .cons first (.cons second .nil)
  dsimp only at first second ⊢
  cases second with
  | list length elements =>
      exact alike_bool (contains_eq injective first
        (Value.alike_list_iff.mp (.list length elements)))
  | _ => exact .invalid shown

theorem matches_literalPair (name : String) (hargs : List.Forall₂ (Arg.Alike L A) args args') :
    Matches (OperationError.Alike L A) Eq (literalPair name args) (literalPair name args') := by
  refine (matches_pair hargs).bind fun p q h => ?_
  obtain ⟨a, b⟩ := p
  obtain ⟨a', b'⟩ := q
  obtain ⟨first, second⟩ := h
  have shown : List.Forall₂ (Value.Alike L) [a, b] [a', b'] := .cons first (.cons second .nil)
  dsimp only at first second ⊢
  cases first with
  | str s =>
      cases second with
      | str t => rfl
      | _ => exact .invalid shown
  | _ => exact .invalid shown

theorem uniform_startsWith : startsWith.Uniform L A := by
  refine uniform_direct fun scope scope' args args' _ hargs => ?_
  refine (matches_literalPair "StartsWith" hargs).bind fun p q same => ?_
  rw [same]
  exact alike_bool rfl

theorem uniform_endsWith : endsWith.Uniform L A := by
  refine uniform_direct fun scope scope' args args' _ hargs => ?_
  refine (matches_literalPair "EndsWith" hargs).bind fun p q same => ?_
  rw [same]
  exact alike_bool rfl

theorem uniform_concatenation : concatenation.Uniform L A := by
  refine uniform_direct fun scope scope' args args' _ hargs => ?_
  refine (matches_pair hargs).bind fun p q h => ?_
  obtain ⟨a, b⟩ := p
  obtain ⟨a', b'⟩ := q
  obtain ⟨first, second⟩ := h
  have shown : List.Forall₂ (Value.Alike L) [a, b] [a', b'] := .cons first (.cons second .nil)
  have whole : a.Alike L a' ∧ b.Alike L b' := ⟨first, second⟩
  dsimp only at first second ⊢
  cases first with
  | str s =>
      cases second with
      | str t => exact .value (.str _)
      | _ => exact .invalid shown
  | list _ _ =>
      cases second with
      | list _ _ =>
          have front := Value.alike_list_iff.mp whole.1
          have back := Value.alike_list_iff.mp whole.2
          exact .value (Value.alike_list_iff.mpr (List.rel_append front back))
      | _ => exact .invalid shown
  | _ => exact .invalid shown

/-- The braced body becomes that of a value. -/
theorem uniform_subExpression (closes : ∀ x y, A.waiting x y → L.body x y) :
    subExpression.Uniform L A := by
  refine uniform_direct fun scope scope' args args' _ hargs => ?_
  have shown := forall₂_values (List.forall₂_take 2 hargs)
  split
  · rename_i name body rest
    cases hargs with
    | cons first others =>
        cases first with
        | value hv =>
            cases hv
            cases others with
            | cons second _ =>
                cases second with
                | block hx => exact .value (.subExpr (closes _ _ hx))
  · rename_i other
    -- What fits on the right would fit on the left as well.
    split
    · cases hargs with
      | cons first others =>
          cases first with
          | value hv =>
              cases hv
              cases others with
              | cons second _ =>
                  cases second with
                  | block _ => exact absurd rfl (other _ _ _)
    · exact .invalid shown

/-- Alike functions with alike arguments bound are alike. -/
theorem uniform_binding : binding.Uniform L A := by
  refine uniform_direct fun scope scope' args args' hscope hargs => ?_
  refine (matches_pair hargs).bind fun p q h => ?_
  refine (matches_callee hscope "bind" h.1).bind fun callee callee' same => ?_
  have whole := same
  rcases same.cases with ⟨f, f', rfl, rfl, -⟩ | ⟨s, s', rfl, rfl, -⟩
  · exact (FunctionValue.matches_bind whole h.2).bind fun g g' bound => .value bound
  · exact .invalid (.cons whole (.cons h.2 .nil))

theorem uniform_joining : joining.Uniform L A := by
  refine uniform_direct fun scope scope' args args' _ hargs => ?_
  refine (matches_pair hargs).bind fun p q h => ?_
  obtain ⟨a, b⟩ := p
  obtain ⟨a', b'⟩ := q
  obtain ⟨first, second⟩ := h
  have together : Value.Alike L (.args [a, b]) (.args [a', b']) :=
    Value.alike_args_iff.mpr (.cons first (.cons second .nil))
  have whole := first
  dsimp only at first second ⊢
  cases first with
  | args _ _ =>
      have front := Value.alike_args_iff.mp whole
      exact .value (Value.alike_args_iff.mpr (List.rel_append front (.cons second .nil)))
  | _ => exact .value together

/-- Both sides hand over to alike callees. -/
theorem uniform_application : application.Uniform L A := by
  intro scope scope' args args' hscope hargs
  have both := matches_pair hargs
  unfold application
  dsimp only
  generalize pair args = read at both ⊢
  generalize pair args' = read' at both ⊢
  match read, read', both with
  | .error _, .error _, same => exact same
  | .ok (f, arg), .ok (f', arg'), ⟨first, second⟩ =>
      have named := matches_callee (A := A) hscope "apply" first
      dsimp only
      generalize scope.callee f "apply" = found at named ⊢
      generalize scope'.callee f' "apply" = found' at named ⊢
      match found, found', named with
      | .error _, .error _, same => exact same
      | .ok callee, .ok callee', same =>
          dsimp only
          rw [← same.missing_eq]
          split
          · exact .apply same (.cons second .nil)
          · exact .invalid (.cons same (.cons second .nil))

theorem uniform_joinedCall : joinedCall.Uniform L A := by
  intro scope scope' args args' hscope hargs
  have both := matches_pair hargs
  unfold joinedCall
  dsimp only
  generalize pair args = read at both ⊢
  generalize pair args' = read' at both ⊢
  match read, read', both with
  | .error _, .error _, same => exact same
  | .ok (f, rest), .ok (f', rest'), ⟨first, second⟩ =>
      have named := matches_callee (A := A) hscope "callWith" first
      dsimp only
      generalize scope.callee f "callWith" = found at named ⊢
      generalize scope'.callee f' "callWith" = found' at named ⊢
      match found, found', named with
      | .error _, .error _, same => exact same
      | .ok callee, .ok callee', same => exact .apply same (alike_joined second)

theorem uniform_prefixCall : prefixCall.Uniform L A := by
  intro scope scope' args args' hscope hargs
  have whole := matches_single hargs
  unfold prefixCall
  dsimp only
  generalize single args = read at whole ⊢
  generalize single args' = read' at whole ⊢
  match read, read', whole with
  | .error _, .error _, same => exact same
  | .ok all, .ok all', same =>
      have parts := alike_joined same
      dsimp only
      generalize joined all = values at parts ⊢
      generalize joined all' = values' at parts ⊢
      match values, values', parts with
      | [], [], _ => exact .invalid .nil
      | f :: _, f' :: _, .cons first others =>
          have named := matches_callee (A := A) hscope "call" first
          dsimp only
          generalize scope.callee f "call" = found at named ⊢
          generalize scope'.callee f' "call" = found' at named ⊢
          match found, found', named with
          | .error _, .error _, same => exact same
          | .ok callee, .ok callee', same => exact .apply same others

/-- Both sides go through alike lists with alike callees, if that is allowed. -/
theorem uniform_traversal (how : Traversal) (loops : A.loops) : (traversal how).Uniform L A := by
  refine uniform_direct fun scope scope' args args' hscope hargs => ?_
  refine (matches_pair hargs).bind fun p q h => ?_
  obtain ⟨items, f⟩ := p
  obtain ⟨items', f'⟩ := q
  obtain ⟨first, second⟩ := h
  have shown : List.Forall₂ (Value.Alike L) [items, f] [items', f'] :=
    .cons first (.cons second .nil)
  have whole := first
  dsimp only at first second ⊢
  cases first with
  | list _ _ =>
      refine (matches_callee hscope how.render second).bind fun callee callee' same => ?_
      rw [← same.missing_eq]
      split
      · exact .demand (.traverse loops (Value.alike_list_iff.mp whole) same)
      · exact .invalid (.cons same .nil)
  | _ => exact .invalid shown

/-- All elements of a list are true if all of an alike list are. -/
theorem all_eq {vs ws : List Value} (h : List.Forall₂ (Value.Alike L) vs ws) (host : Host) :
    vs.all (·.isTruthy host) = ws.all (·.isTruthy host) := by
  induction h with
  | nil => rfl
  | cons first _ ih => rw [List.all_cons, List.all_cons, first.isTruthy_eq, ih]

theorem any_eq {vs ws : List Value} (h : List.Forall₂ (Value.Alike L) vs ws) (host : Host) :
    vs.any (·.isTruthy host) = ws.any (·.isTruthy host) := by
  induction h with
  | nil => rfl
  | cons first _ ih => rw [List.any_cons, List.any_cons, first.isTruthy_eq, ih]

theorem uniform_reduction : reduction.Uniform L A := by
  refine uniform_direct fun scope scope' args args' hscope hargs => ?_
  refine (matches_pair hargs).bind fun p q h => ?_
  obtain ⟨items, how⟩ := p
  obtain ⟨items', how'⟩ := q
  obtain ⟨first, second⟩ := h
  have shown : List.Forall₂ (Value.Alike L) [items, how] [items', how'] :=
    .cons first (.cons second .nil)
  have whole := first
  dsimp only at first second ⊢
  cases first with
  | list _ _ =>
      have elements := Value.alike_list_iff.mp whole
      dsimp only
      rw [← hscope.host, all_eq elements, any_eq elements]
      simp only [second.eq_str_iff]
      split
      · exact alike_bool rfl
      · split
        · exact alike_bool rfl
        · exact .unknownReduction second
  | _ => exact .invalid shown

/-! ### The library -/

/-- What is registered has a uniform body, if it does only what the likeness allows. -/
def Uniform (L : Likeness) (A : Requests) (r : Registration) : Prop :=
  (r.name = "=>" → ∀ x y, A.waiting x y → L.body x y) →
  (r.name ∈ ["map", "filter", "flatMap", "$"] → A.loops) →
  ∀ d, r.definition? = some d → d.body.Uniform L A

theorem uniform_operator {name : String} {fixity : Fixity} {body : Body}
    {desugar? : Option Desugaring} (h : body.Uniform L A) :
    Uniform L A (.operator name fixity (some body) desugar?) := by
  intro _ _ d hd
  cases hd
  exact h

theorem uniform_function {name : String} {arity : Nat} {body : Body} (h : body.Uniform L A) :
    Uniform L A (.function name arity body) := by
  intro _ _ d hd
  cases hd
  exact h

/-- An operator that goes through lists is uniform as far as that is allowed, which is a condition
on its name. -/
theorem uniform_loop {name : String} {fixity : Fixity} {body : Body}
    {desugar? : Option Desugaring} (named : name ∈ ["map", "filter", "flatMap", "$"])
    (h : A.loops → body.Uniform L A) :
    Uniform L A (.operator name fixity (some body) desugar?) := by
  intro _ loops d hd
  cases hd
  exact h (loops named)

theorem uniform_arrow : Uniform L A (.operator "=>" .infix2 (some subExpression) none) := by
  intro closes _ d hd
  cases hd
  exact uniform_subExpression (closes rfl)

/-- **Every standard body is uniform**, if it does only what the likeness allows. -/
theorem uniform_library (injective : L.Injective) : ∀ r ∈ library, Uniform L A r := by
  have truths : ∀ r ∈ truthOperations, Uniform L A r := by
    simp only [truthOperations, List.forall_mem_cons]
    exact ⟨uniform_operator uniform_truth, uniform_operator uniform_negation,
      uniform_operator uniform_exclusion, uniform_operator (uniform_equality injective),
      uniform_operator uniform_conjunction, uniform_operator uniform_disjunction,
      uniform_operator uniform_conjunction, uniform_operator uniform_disjunction,
      uniform_function uniform_negation, nofun⟩
  have conditionals : ∀ r ∈ conditionalOperations, Uniform L A r := by
    simp only [conditionalOperations, List.forall_mem_cons]
    exact ⟨uniform_operator uniform_branch, uniform_operator (uniform_misplaced _),
      uniform_operator (uniform_misplaced _), uniform_operator (uniform_misplaced _),
      uniform_operator (uniform_misplaced _), uniform_operator uniform_branch,
      uniform_operator uniform_branch, nofun⟩
  have lookups : ∀ r ∈ lookupOperations, Uniform L A r := by
    simp only [lookupOperations, List.forall_mem_cons]
    exact ⟨uniform_operator uniform_dereference, uniform_operator uniform_variableValue,
      uniform_loop (by simp) uniform_reserved, uniform_operator (uniform_membership injective),
      nofun⟩
  have sequences : ∀ r ∈ sequenceFunctions, Uniform L A r := by
    simp only [sequenceFunctions, List.forall_mem_cons]
    exact ⟨uniform_function uniform_startsWith, uniform_function uniform_endsWith,
      uniform_function uniform_concatenation, nofun⟩
  have applications : ∀ r ∈ applicationOperations, Uniform L A r := by
    simp only [applicationOperations, List.forall_mem_cons]
    exact ⟨uniform_arrow, uniform_operator uniform_binding, uniform_operator uniform_application,
      uniform_operator uniform_joining, uniform_operator uniform_joinedCall,
      uniform_operator uniform_prefixCall, nofun⟩
  have traversals : ∀ r ∈ traversalOperations, Uniform L A r := by
    simp only [traversalOperations, List.forall_mem_cons]
    exact ⟨uniform_loop (by simp) (uniform_traversal .map),
      uniform_loop (by simp) (uniform_traversal .filter),
      uniform_loop (by simp) (uniform_traversal .flatMap), uniform_operator uniform_reduction,
      nofun⟩
  simp only [library, List.forall_mem_append]
  exact ⟨⟨⟨⟨⟨truths, conditionals⟩, lookups⟩, sequences⟩, applications⟩, traversals⟩

end Standard

/-- The data of the host and the functions that have a name are the same for alike
environments. -/
theorem Registry.alike_scope {registry : Registry} {L : Likeness} {host : Host}
    {env env' : Environment} (data : ∀ key v, host.get? key = some v → v.IsData)
    (callable : ∀ entry ∈ registry.directory.arities, L.callable ⟨entry.1, entry.2⟩)
    (henv : Environment.Alike L env env') :
    Scope.Alike L (registry.scope host env) (registry.scope host env') where
  host := rfl
  data key v found := (data key v found).alike
  env := henv
  directory := rfl
  callable _ _ resolved := callable _ (Directory.mem_of_resolve resolved)

/-- What the standard registry finds has a uniform body, if it does only what the likeness allows.
The two conditions are about the names of operators, so a caller that excludes these has nothing
to show. -/
theorem Registry.find?_uniform {L : Likeness} {A : Requests} (injective : L.Injective)
    {signature : Signature} {d : Definition} (found : Registry.standard.find? signature = some d)
    (closes : signature.name = "=>" → ∀ x y, A.waiting x y → L.body x y)
    (loops : signature.name ∈ ["map", "filter", "flatMap", "$"] → A.loops) :
    d.body.Uniform L A := by
  obtain ⟨r, mem, hd⟩ := exists_registration Standard.build_library (Table.mem_of_find? found)
  have named : r.name = signature.name := by
    rw [← signature_of_find? found, Registration.signature_of_definition? hd]
    rfl
  rw [← named] at closes loops
  exact Standard.uniform_library injective r mem closes loops d hd

end RuleEngine
