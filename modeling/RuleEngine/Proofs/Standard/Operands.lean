import RuleEngine.Proofs.Operation.Over
import RuleEngine.Standard.Library

/-!
# The standard library makes no operands

Every standard body is followed through its steps: the operands in its reply are
among those that it is given.  The operator `=>` is the one that wraps an operand
into a value, and this operand is the braced body that stands beside it.

So an evaluation that is started from an operand deals with what can be reached from it,
with what the host and the environment bring along, and with nothing else.  Nodes that
were added to a pool later have no part in it.  The proofs have the shape of the bodies,
and most of them are immediate, as a truth value has no operand in it.

## Main statements

* `Standard.keeps_library` - no standard body makes an operand.
* `Registry.keeps_standard` - hence no call of the standard registry does.
-/

namespace RuleEngine

namespace Standard

variable {Q : Operand → Prop} {args : List Arg}

/-! ### Taking arguments apart -/

section Arguments

variable (hargs : ∀ arg ∈ args, arg.Over Q)

include hargs

/-- The values of some arguments have no operands but those of the arguments. -/
theorem gives_evaluated : Gives (fun vs => ∀ v ∈ vs, v.Over Q) (evaluated args) := by
  induction args with
  | nil => exact nofun
  | cons arg rest ih =>
      have first := Arg.gives_toValue (hargs arg List.mem_cons_self)
      have others := ih fun other mem => hargs other (List.mem_cons_of_mem arg mem)
      rw [evaluated]
      cases value : arg.toValue with
      | error e => trivial
      | ok v =>
          rw [value] at first
          dsimp only
          cases values : evaluated rest with
          | error e => trivial
          | ok vs =>
              rw [values] at others
              intro w hw
              rcases List.mem_cons.mp hw with rfl | hw
              · exact first
              · exact others w hw

/-- One argument that is taken as a value hands on its operands. -/
theorem gives_single : Gives (Value.Over Q) (single args) := by
  have all := gives_evaluated hargs
  unfold single
  split
  · trivial
  · rename_i v values
    rw [values] at all
    exact all v (List.mem_singleton_self v)
  · trivial

/-- So do two arguments. -/
theorem gives_pair : Gives (fun p => p.1.Over Q ∧ p.2.Over Q) (pair args) := by
  have all := gives_evaluated hargs
  unfold pair
  split
  · trivial
  · rename_i a b values
    rw [values] at all
    exact ⟨all a (by simp), all b (by simp)⟩
  · trivial

/-- So do two of which the second one may wait; its operand is one of those that it hands on. -/
theorem gives_pairWithArg : Gives (fun p => p.1.Over Q ∧ p.2.Over Q) (pairWithArg args) := by
  unfold pairWithArg
  split
  · rename_i left right
    refine (Arg.gives_toValue (hargs left (by simp))).bind fun v hv => ?_
    exact ⟨hv, hargs right (by simp)⟩
  · cases evaluated (args.drop 3) <;> trivial

end Arguments

/-- A callee has the operands of the value that it is made of.  A function that is looked up by
its name has none. -/
theorem gives_callee (scope : Scope) {v : Value} (hv : v.Over Q) (op : String) :
    Gives (Callee.Over Q) (scope.callee v op) := by
  unfold Scope.callee
  split
  · exact hv
  · exact hv
  · exact (scope.directory.gives_resolve _).map fun _ hf => hf
  · trivial

/-- Joined values have the operands of the value in which they were joined. -/
theorem over_joined {v : Value} (h : v.Over Q) : ∀ w ∈ joined v, w.Over Q := by
  cases h with
  | args hitems => exact hitems
  | bool b => simpa [joined] using Value.Over.bool b
  | str s => simpa [joined] using Value.Over.str s
  | list hitems => simpa [joined] using hitems
  | function hbound => simpa [joined] using hbound
  | subExpr body => simpa [joined] using body

/-! ### Bodies -/

/-- A body that hands nothing over makes no operand if its outcome has none.  The operands of an
outcome are those of its value, or of what it demands. -/
theorem keeps_direct {run : Scope → List Arg → Except OperationError Outcome}
    (h : ∀ (Q : Operand → Prop) scope args, scope.Over Q → (∀ arg ∈ args, arg.Over Q) →
      Gives (Outcome.Over Q) (run scope args)) : (Body.direct run).Keeps :=
  fun Q scope args hscope hargs => (h Q scope args hscope hargs).map fun _ ho => ho

/-- There is no operand in a truth value. -/
theorem gives_bool (b : Bool) :
    Gives (Outcome.Over Q) (pure (.value (.bool b)) : Except OperationError Outcome) :=
  Value.Over.bool b

theorem keeps_truth : truth.Keeps :=
  keeps_direct fun _ _ _ _ hargs => (gives_single hargs).bind fun _ _ => gives_bool _

theorem keeps_negation : negation.Keeps :=
  keeps_direct fun _ _ _ _ hargs => (gives_single hargs).bind fun _ _ => gives_bool _

theorem keeps_exclusion : exclusion.Keeps :=
  keeps_direct fun _ _ _ _ hargs => (gives_pair hargs).bind fun _ _ => gives_bool _

theorem keeps_equality : equality.Keeps :=
  keeps_direct fun _ _ _ _ hargs => (gives_pair hargs).bind fun _ _ => gives_bool _

theorem keeps_conjunction : conjunction.Keeps := by
  refine keeps_direct fun Q scope args _ hargs => ?_
  refine (gives_pairWithArg hargs).bind fun p hp => ?_
  obtain ⟨left, right⟩ := p
  dsimp only
  split
  · exact Arg.gives_outcome hp.2
  · exact hp.1

theorem keeps_disjunction : disjunction.Keeps := by
  refine keeps_direct fun Q scope args _ hargs => ?_
  refine (gives_pairWithArg hargs).bind fun p hp => ?_
  obtain ⟨left, right⟩ := p
  dsimp only
  split
  · exact hp.1
  · exact Arg.gives_outcome hp.2

/-- A conditional demands one of its branches, which is an operand that it was given, in the
environment that came with it. -/
theorem keeps_branch : branch.Keeps := by
  refine keeps_direct fun Q scope args _ hargs => ?_
  split
  · rename_i condition first second
    refine (Arg.gives_toValue (hargs condition (by simp))).bind fun v _ => ?_
    split
    · exact Arg.gives_outcome (hargs first (by simp))
    · exact Arg.gives_outcome (hargs second (by simp))
  · trivial

theorem keeps_misplaced (complaint : String) : (misplaced complaint).Keeps :=
  keeps_direct fun _ _ _ _ hargs => (gives_evaluated hargs).bind fun _ _ => trivial

/-- The operands in data of the host are those of the host. -/
theorem keeps_dereference : dereference.Keeps := by
  refine keeps_direct fun Q scope args hscope hargs => ?_
  refine (gives_single hargs).bind fun v _ => ?_
  cases literal "*" v with
  | error e => trivial
  | ok key =>
      dsimp only [bind, Except.bind]
      cases found : scope.host.get? key with
      | none => trivial
      | some w => exact hscope.host key w found

/-- Those in the value of a variable are operands of the environment. -/
theorem keeps_variableValue : variableValue.Keeps := by
  refine keeps_direct fun Q scope args hscope hargs => ?_
  refine (gives_single hargs).bind fun v _ => ?_
  cases literal "v" v with
  | error e => trivial
  | ok name =>
      dsimp only [bind, Except.bind]
      cases found : scope.env.get? name with
      | none => trivial
      | some w => exact hscope.env name w found

theorem keeps_reserved : reserved.Keeps := by
  refine keeps_direct fun Q scope args _ hargs => ?_
  refine (gives_single hargs).bind fun v _ => ?_
  split <;> trivial

theorem keeps_membership : membership.Keeps := by
  refine keeps_direct fun Q scope args _ hargs => ?_
  refine (gives_pair hargs).bind fun p _ => ?_
  split
  · exact gives_bool _
  · trivial

theorem keeps_startsWith : startsWith.Keeps := by
  refine keeps_direct fun Q scope args _ _ => ?_
  cases literalPair "StartsWith" args with
  | error e => trivial
  | ok texts => exact gives_bool _

theorem keeps_endsWith : endsWith.Keeps := by
  refine keeps_direct fun Q scope args _ _ => ?_
  cases literalPair "EndsWith" args with
  | error e => trivial
  | ok texts => exact gives_bool _

/-- A list that is put together has the elements of both lists. -/
theorem keeps_concatenation : concatenation.Keeps := by
  refine keeps_direct fun Q scope args _ hargs => ?_
  refine (gives_pair hargs).bind fun p hp => ?_
  split
  · exact Value.Over.str _
  · refine Value.Over.list fun v hv => ?_
    rcases List.mem_append.mp hv with hv | hv
    · exact Value.over_list_iff.mp hp.1 v hv
    · exact Value.over_list_iff.mp hp.2 v hv
  · trivial

/-- The body of the new sub-expression is the braced one.  This is the only operator that puts an
operand into a value. -/
theorem keeps_subExpression : subExpression.Keeps := by
  refine keeps_direct fun Q scope args _ hargs => ?_
  split
  · rename_i name body rest
    exact Value.Over.subExpr (hargs (.block body) (by simp))
  · trivial

theorem keeps_binding : binding.Keeps := by
  refine keeps_direct fun Q scope args _ hargs => ?_
  refine (gives_pair hargs).bind fun p hp => ?_
  refine (gives_callee scope hp.1 "bind").bind fun callee hcallee => ?_
  cases callee with
  | function f => exact (FunctionValue.gives_bind hcallee hp.2).bind fun _ hg => hg
  | subExpr s => trivial

theorem keeps_joining : joining.Keeps := by
  refine keeps_direct fun Q scope args _ hargs => ?_
  refine (gives_pair hargs).bind fun p hp => ?_
  split
  · refine Value.Over.args fun v hv => ?_
    rcases List.mem_append.mp hv with hv | hv
    · exact Value.over_args_iff.mp hp.1 v hv
    · rw [List.mem_singleton.mp hv]
      exact hp.2
  · refine Value.Over.args ?_
    simpa using hp

/-- Handing over makes no operands, since callee and arguments were given. -/
theorem keeps_application : application.Keeps := by
  intro Q scope args _ hargs
  have both := gives_pair hargs
  unfold application
  dsimp only
  cases read : pair args with
  | error e => trivial
  | ok p =>
      rw [read] at both
      have named := gives_callee scope both.1 "apply"
      dsimp only
      cases found : scope.callee p.1 "apply" with
      | error e => trivial
      | ok callee =>
          rw [found] at named
          dsimp only
          split
          · exact ⟨named, by simpa using both.2⟩
          · trivial

theorem keeps_joinedCall : joinedCall.Keeps := by
  intro Q scope args _ hargs
  have both := gives_pair hargs
  unfold joinedCall
  dsimp only
  cases read : pair args with
  | error e => trivial
  | ok p =>
      rw [read] at both
      have named := gives_callee scope both.1 "callWith"
      dsimp only
      cases found : scope.callee p.1 "callWith" with
      | error e => trivial
      | ok callee =>
          rw [found] at named
          exact ⟨named, over_joined both.2⟩

theorem keeps_prefixCall : prefixCall.Keeps := by
  intro Q scope args _ hargs
  have whole := gives_single hargs
  unfold prefixCall
  dsimp only
  cases read : single args with
  | error e => trivial
  | ok all =>
      rw [read] at whole
      have parts := over_joined whole
      dsimp only
      cases taken : joined all with
      | nil => trivial
      | cons f rest =>
          rw [taken] at parts
          have named := gives_callee scope (parts f List.mem_cons_self) "call"
          dsimp only
          cases found : scope.callee f "call" with
          | error e => trivial
          | ok callee =>
              rw [found] at named
              exact ⟨named, fun v hv => parts v (List.mem_cons_of_mem f hv)⟩

/-- To go through a list is to demand its elements and a callee, which were given. -/
theorem keeps_traversal (how : Traversal) : (traversal how).Keeps := by
  refine keeps_direct fun Q scope args _ hargs => ?_
  refine (gives_pair hargs).bind fun p hp => ?_
  split
  · refine (gives_callee scope hp.2 how.render).bind fun callee hcallee => ?_
    split
    · exact ⟨Value.over_list_iff.mp hp.1, hcallee⟩
    · trivial
  · trivial

theorem keeps_reduction : reduction.Keeps := by
  refine keeps_direct fun Q scope args _ hargs => ?_
  refine (gives_pair hargs).bind fun p _ => ?_
  split
  · split
    · exact gives_bool _
    · split
      · exact gives_bool _
      · trivial
  · trivial

end Standard

/-! ### The library -/

/-- What is registered has a body that makes no operand, if it has one. -/
def Registration.Keeps (r : Registration) : Prop :=
  ∀ d, r.definition? = some d → d.body.Keeps

namespace Standard

/-- What is registered keeps if its body does, desugared or not. -/
theorem keeps_operator {name : String} {fixity : Fixity} {body : Body}
    {desugar? : Option Desugaring} (h : body.Keeps) :
    (Registration.operator name fixity (some body) desugar?).Keeps := by
  intro d hd
  cases hd
  exact h

theorem keeps_function {name : String} {arity : Nat} {body : Body} (h : body.Keeps) :
    (Registration.function name arity body).Keeps := by
  intro d hd
  cases hd
  exact h

/-- **No standard body makes an operand.** -/
theorem keeps_library : ∀ r ∈ library, r.Keeps := by
  have truths : ∀ r ∈ truthOperations, r.Keeps := by
    simp only [truthOperations, List.forall_mem_cons]
    exact ⟨keeps_operator keeps_truth, keeps_operator keeps_negation,
      keeps_operator keeps_exclusion, keeps_operator keeps_equality,
      keeps_operator keeps_conjunction, keeps_operator keeps_disjunction,
      keeps_operator keeps_conjunction, keeps_operator keeps_disjunction,
      keeps_function keeps_negation, nofun⟩
  have conditionals : ∀ r ∈ conditionalOperations, r.Keeps := by
    simp only [conditionalOperations, List.forall_mem_cons]
    exact ⟨keeps_operator keeps_branch, keeps_operator (keeps_misplaced _),
      keeps_operator (keeps_misplaced _), keeps_operator (keeps_misplaced _),
      keeps_operator (keeps_misplaced _), keeps_operator keeps_branch,
      keeps_operator keeps_branch, nofun⟩
  have lookups : ∀ r ∈ lookupOperations, r.Keeps := by
    simp only [lookupOperations, List.forall_mem_cons]
    exact ⟨keeps_operator keeps_dereference, keeps_operator keeps_variableValue,
      keeps_operator keeps_reserved, keeps_operator keeps_membership, nofun⟩
  have sequences : ∀ r ∈ sequenceFunctions, r.Keeps := by
    simp only [sequenceFunctions, List.forall_mem_cons]
    exact ⟨keeps_function keeps_startsWith, keeps_function keeps_endsWith,
      keeps_function keeps_concatenation, nofun⟩
  have applications : ∀ r ∈ applicationOperations, r.Keeps := by
    simp only [applicationOperations, List.forall_mem_cons]
    exact ⟨keeps_operator keeps_subExpression, keeps_operator keeps_binding,
      keeps_operator keeps_application, keeps_operator keeps_joining,
      keeps_operator keeps_joinedCall, keeps_operator keeps_prefixCall, nofun⟩
  have traversals : ∀ r ∈ traversalOperations, r.Keeps := by
    simp only [traversalOperations, List.forall_mem_cons]
    exact ⟨keeps_operator (keeps_traversal .map), keeps_operator (keeps_traversal .filter),
      keeps_operator (keeps_traversal .flatMap), keeps_operator keeps_reduction, nofun⟩
  simp only [library, List.forall_mem_append]
  exact ⟨⟨⟨⟨⟨truths, conditionals⟩, lookups⟩, sequences⟩, applications⟩, traversals⟩

end Standard

/-- **No call of the standard registry makes an operand**, through all hand-overs. -/
theorem Registry.keeps_standard : Registry.standard.Keeps := by
  intro d mem
  obtain ⟨r, hr, hd⟩ := exists_registration Standard.build_library mem
  exact Standard.keeps_library r hr d hd

end RuleEngine
