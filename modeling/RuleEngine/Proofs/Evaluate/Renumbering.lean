import RuleEngine.Proofs.Evaluate.Adequacy
import RuleEngine.Proofs.Operation.Alike
import RuleEngine.Proofs.Operation.Unfold

/-!
# Evaluation does not depend on the numbers of nodes

The nodes of two pools may correspond although their numbers are not the same, and
although there are further nodes that do not correspond to any.  From operands that
lead to corresponding nodes both evaluations take the same steps, and come to the
same value or fail for the same cause.  Only where operands are shown, or are kept
as bodies of sub-expressions, does one evaluation have its numbers and the other its
own.

A numbering has to be one to one, because values are compared: two sub-expressions
with the same body must not be told apart, and two with different bodies must be.

## Main definitions

* `Operand.Renumbered` - the operands are the same but for the numbers of nodes.
* `Pool.Renumbers` - nodes with corresponding numbers are the same but for numbers.
* `EvalCause.Renumbered` - so are the causes of failures.

## Main statements

* `evaluates_renumbered` - derivations correspond, with all their steps.
* `Context.evaluate_renumbered` - evaluations correspond, under any scheduler.
* `Unfolds.renumbers` - pools that unfold to the same tree correspond on the way.
-/

namespace RuleEngine

open Schedule (Scheduler)

/-- The operands are the same, if each number stands for one that corresponds to it. -/
inductive Operand.Renumbered (ρ : Nat → Nat → Prop) : Operand → Operand → Prop
  | literal (text : String) : Renumbered ρ (.literal text) (.literal text)
  | node {i j : Nat} : ρ i j → Renumbered ρ (.node i) (.node j)
  | block {x y : Operand} : Renumbered ρ x y → Renumbered ρ (.block x) (.block y)
  | skip {x y : Operand} : Renumbered ρ x y → Renumbered ρ (.skip x) (.skip y)

/-- Bodies are alike but for numbers, and all functions may occur. -/
def Likeness.renumbered (ρ : Nat → Nat → Prop) : Likeness :=
  ⟨Operand.Renumbered ρ, fun _ => True⟩

/-- Waiting operands are alike but for numbers, and anything may be asked for. -/
def Requests.renumbered (ρ : Nat → Nat → Prop) : Requests :=
  ⟨Operand.Renumbered ρ, True⟩

/-- The values are the same but for the numbers in bodies of sub-expressions. -/
abbrev Value.Renumbered (ρ : Nat → Nat → Prop) : Value → Value → Prop :=
  Value.Alike (.renumbered ρ)

/-- The causes are the same but for the numbers in what they show. -/
inductive EvalCause.Renumbered (ρ : Nat → Nat → Prop) : EvalCause → EvalCause → Prop
  | unregistered (signature : Signature) :
      Renumbered ρ (.unregistered signature) (.unregistered signature)
  | operator (name : String) {cause cause' : OperationError} :
      OperationError.Alike (.renumbered ρ) (.renumbered ρ) cause cause' →
      Renumbered ρ (.operator name cause) (.operator name cause')
  | bareBlock : Renumbered ρ .bareBlock .bareBlock
  | internal (fault : InternalFault) : Renumbered ρ (.internal fault) (.internal fault)

/-- The numbers stand for nodes that are the same but for numbers. -/
def Pool.Corresponding (ρ : Nat → Nat → Prop) (pool pool' : Pool) (i j : Nat) : Prop :=
  ∃ node node', pool.get? i = some node ∧ pool'.get? j = some node' ∧ node.name = node'.name ∧
    List.Forall₂ (Operand.Renumbered ρ) node.operands node'.operands

/-- Numbers correspond one to one, and so does what they stand for. -/
structure Pool.Renumbers (ρ : Nat → Nat → Prop) (pool pool' : Pool) : Prop where
  /-- A number corresponds to one number. -/
  right : ∀ {i j k}, ρ i j → ρ i k → j = k
  /-- One number corresponds to it. -/
  left : ∀ {i j k}, ρ i k → ρ j k → i = j
  /-- The nodes. -/
  nodes : ∀ {i j}, ρ i j → Corresponding ρ pool pool' i j

variable {ρ : Nat → Nat → Prop} {pool pool' : Pool}

/-- The correspondence of operands can be read backwards. -/
theorem Operand.Renumbered.flip {x y : Operand} (h : Renumbered ρ x y) :
    Renumbered (fun i j => ρ j i) y x := by
  induction h with
  | literal text => exact .literal text
  | node hij => exact .node hij
  | block _ ih => exact .block ih
  | skip _ ih => exact .skip ih

namespace Pool.Renumbers

/-- So can that of pools, since each condition on the numbers is asked in both directions. -/
theorem flip (h : pool.Renumbers ρ pool') : pool'.Renumbers (fun i j => ρ j i) pool where
  right first second := h.left first second
  left first second := h.right first second
  nodes hij := by
    obtain ⟨node, node', found, found', named, operands⟩ := h.nodes hij
    exact ⟨node', node, found', found, named.symm, operands.flip.imp fun _ _ => .flip⟩

/-- The node that corresponds to a given one is there as well, with the same name and with
operands that correspond one by one. -/
theorem exists_node {i j : Nat} {node : Node} (h : pool.Renumbers ρ pool') (hij : ρ i j)
    (found : pool.get? i = some node) : ∃ node', pool'.get? j = some node' ∧
      node.name = node'.name ∧ node'.signature = node.signature ∧
      List.Forall₂ (Operand.Renumbered ρ) node.operands node'.operands := by
  obtain ⟨node₁, node', found₁, found', named, operands⟩ := h.nodes hij
  obtain rfl := Option.some.inj (found.symm.trans found₁)
  refine ⟨node', found', named, ?_, operands⟩
  rw [Node.signature, Node.signature, named, operands.length_eq]

/-- A correspondence of numbers that is one to one makes that of operands so, and a comparison of
sub-expressions has the same outcome on both sides. -/
theorem injective (h : pool.Renumbers ρ pool') : (Likeness.renumbered ρ).Injective where
  right := by
    intro x y y' first second
    induction first generalizing y' with
    | literal text =>
        cases second
        rfl
    | node hij =>
        cases second with
        | node hij' => rw [h.right hij hij']
    | block _ ih =>
        cases second with
        | block inner => rw [ih inner]
    | skip _ ih =>
        cases second with
        | skip inner => rw [ih inner]
  left := by
    intro x x' y first second
    induction first generalizing x' with
    | literal text =>
        cases second
        rfl
    | node hij =>
        cases second with
        | node hij' => rw [h.left hij hij']
    | block _ ih =>
        cases second with
        | block inner => rw [ih inner]
    | skip _ ih =>
        cases second with
        | skip inner => rw [ih inner]

end Pool.Renumbers

/-! ### Derivations -/

namespace Semantics

/-- Alike results contribute alike elements.  The truth of a value and whether it is a list do not
depend on numbers. -/
theorem matches_combine (host : Host) (how : Traversal) {item item' result result' : Value}
    (hitem : Value.Renumbered ρ item item') (hresult : Value.Renumbered ρ result result') :
    Matches (OperationError.Alike (.renumbered ρ) (.renumbered ρ))
      (List.Forall₂ (Value.Renumbered ρ))
      (how.combine host item result) (how.combine host item' result') := by
  cases how with
  | map => exact .cons hresult .nil
  | filter =>
      unfold Traversal.combine
      dsimp only
      rw [← hresult.isTruthy_eq host]
      split
      · exact .cons hitem .nil
      · exact .nil
  | flatMap =>
      have refused : OperationError.Alike (.renumbered ρ) (.renumbered ρ)
          (.invalid "flatMap function must return a list" [result])
          (.invalid "flatMap function must return a list" [result']) :=
        .invalid (.cons hresult .nil)
      cases hresult with
      | list length elements => exact Value.alike_list_iff.mp (.list length elements)
      | bool b => exact refused
      | str s => exact refused
      | function callable length elements => exact refused
      | subExpr body => exact refused
      | args length elements => exact refused

section Derivations

variable {host : Host} {registry : Registry}

/-- The pools correspond, and so do the outcomes of bodies. -/
structure Corresponds (ρ : Nat → Nat → Prop) (host : Host) (registry : Registry)
    (pool pool' : Pool) : Prop where
  /-- The nodes. -/
  nodes : pool.Renumbers ρ pool'
  /-- The bodies of operations. -/
  uniform : registry.Uniform (.renumbered ρ) (.renumbered ρ)
  /-- The data of the host. -/
  data : ∀ key v, host.get? key = some v → v.IsData

/-- What bodies may look at is alike on both sides: the data of the host is the same, and the
names are given alike values. -/
theorem Corresponds.scope {env env' : Environment} (h : Corresponds ρ host registry pool pool')
    (henv : Environment.Alike (.renumbered ρ) env env') :
    Scope.Alike (.renumbered ρ) (registry.scope host env) (registry.scope host env') where
  host := rfl
  data key v found := (h.data key v found).alike
  env := henv
  directory := rfl
  callable _ _ _ := trivial

/-- Bodies of operations that a node asks for do the same on both sides, as they see of operands
only whether they are alike. -/
theorem matches_call {env env' : Environment} {node : Node} {d : Definition}
    {args args' : List Arg} (h : Corresponds ρ host registry pool pool')
    (found : registry.find? node.signature = some d)
    (henv : Environment.Alike (.renumbered ρ) env env')
    (hargs : List.Forall₂ (Arg.Alike (.renumbered ρ) (.renumbered ρ)) args args') :
    Matches (OperationError.Alike (.renumbered ρ) (.renumbered ρ))
      (Outcome.Alike (.renumbered ρ) (.renumbered ρ))
      (registry.call (registry.scope host env) d.body args)
      (registry.call (registry.scope host env') d.body args') :=
  Registry.call_alike h.uniform (h.scope henv) (h.uniform _ d trivial found) hargs

mutual

/-- **Operands on their own.**  A derivation on the one side is one on the other, of as many
steps, with a result that differs in numbers only.  This and the five statements that follow are
proved together, one for each relation of the semantics. -/
theorem evaluates_renumbered {env env' : Environment} {x y : Operand} {n : Nat}
    {r : Except EvalCause Value}
    (h : Corresponds ρ host registry pool pool')
    (henv : Environment.Alike (.renumbered ρ) env env') (hx : Operand.Renumbered ρ x y)
    (derived : Evaluates ⟨host, registry, pool⟩ env x n r) :
    ∃ r', Evaluates ⟨host, registry, pool'⟩ env' y n r' ∧
      Matches (EvalCause.Renumbered ρ) (Value.Renumbered ρ) r r' := by
  match derived with
  | .literal =>
      cases hx
      exact ⟨_, .literal, .str _⟩
  | .block =>
      cases hx
      exact ⟨_, .block, .bareBlock⟩
  | .skip inner =>
      cases hx with
      | skip hx =>
          obtain ⟨r', inner', same⟩ := evaluates_renumbered h henv hx inner
          exact ⟨r', .skip inner', same⟩
  | .value computed =>
      cases hx with
      | node hij =>
          obtain ⟨r', computed', same⟩ := computes_renumbered h henv hij computed
          obtain ⟨w, rfl, hw⟩ := same.exists_ok rfl
          exact ⟨_, .value computed', hw⟩
  | .failure failed =>
      cases hx with
      | node hij =>
          obtain ⟨r', failed', same⟩ := computes_renumbered h henv hij failed
          obtain ⟨e', rfl, he⟩ := same.exists_error rfl
          exact ⟨_, .failure failed', he⟩

/-- **Nodes among operands.**  Nodes that correspond have the same operation and corresponding
operands. -/
theorem computes_renumbered {env env' : Environment} {i j n : Nat} {r : Except EvalCause Value}
    (h : Corresponds ρ host registry pool pool')
    (henv : Environment.Alike (.renumbered ρ) env env') (hij : ρ i j)
    (derived : Computes ⟨host, registry, pool⟩ env i n r) :
    ∃ r', Computes ⟨host, registry, pool'⟩ env' j n r' ∧
      Matches (EvalCause.Renumbered ρ) (Value.Renumbered ρ) r r' := by
  -- One case for each rule; the corresponding node has the same name and number of operands, and
  -- so the same definition.
  match derived with
  | .dangling missing =>
      obtain ⟨node, node', found, -⟩ := h.nodes.nodes hij
      cases found.symm.trans missing
  | .operand here failed =>
      obtain ⟨node', found', named, signatures, operands⟩ := h.nodes.exists_node hij here
      obtain ⟨r', failed', same⟩ := prepares_renumbered h henv operands failed
      obtain ⟨e', rfl, he⟩ := same.exists_error rfl
      exact ⟨_, .operand found' failed', he⟩
  | .unregistered here prepared missing =>
      obtain ⟨node', found', named, signatures, operands⟩ := h.nodes.exists_node hij here
      obtain ⟨r', prepared', same⟩ := prepares_renumbered h henv operands prepared
      obtain ⟨args', rfl, hargs⟩ := same.exists_ok rfl
      refine ⟨_, .unregistered found' prepared' (signatures ▸ missing), ?_⟩
      rw [signatures]
      exact .unregistered _
  | .body here prepared registered failed =>
      obtain ⟨node', found', named, signatures, operands⟩ := h.nodes.exists_node hij here
      obtain ⟨r', prepared', same⟩ := prepares_renumbered h henv operands prepared
      obtain ⟨args', rfl, hargs⟩ := same.exists_ok rfl
      obtain ⟨cause', failed', causes⟩ := (matches_call h registered henv hargs).exists_error failed
      refine ⟨_, .body found' prepared' (signatures ▸ registered) failed', ?_⟩
      rw [named]
      exact .operator _ causes
  | .value here prepared registered called =>
      obtain ⟨node', found', named, signatures, operands⟩ := h.nodes.exists_node hij here
      obtain ⟨r', prepared', same⟩ := prepares_renumbered h henv operands prepared
      obtain ⟨args', rfl, hargs⟩ := same.exists_ok rfl
      obtain ⟨_, called', outcomes⟩ := (matches_call h registered henv hargs).exists_ok called
      cases outcomes with
      | value hv => exact ⟨_, .value found' prepared' (signatures ▸ registered) called', hv⟩
  | .demand here prepared registered called met =>
      obtain ⟨node', found', named, signatures, operands⟩ := h.nodes.exists_node hij here
      obtain ⟨r', prepared', same⟩ := prepares_renumbered h henv operands prepared
      obtain ⟨args', rfl, hargs⟩ := same.exists_ok rfl
      obtain ⟨_, called', outcomes⟩ := (matches_call h registered henv hargs).exists_ok called
      cases outcomes with
      | demand demands =>
          obtain ⟨r', met', same⟩ := meets_renumbered h henv demands met
          exact ⟨r', .demand found' prepared' (signatures ▸ registered) called' met', same⟩

/-- **All operands of a node**, from first to last. -/
theorem prepares_renumbered {env env' : Environment} {xs ys : List Operand} {n : Nat}
    {r : Except EvalCause (List Arg)}
    (h : Corresponds ρ host registry pool pool')
    (henv : Environment.Alike (.renumbered ρ) env env')
    (hxs : List.Forall₂ (Operand.Renumbered ρ) xs ys)
    (derived : Prepares ⟨host, registry, pool⟩ env xs n r) :
    ∃ r', Prepares ⟨host, registry, pool'⟩ env' ys n r' ∧
      Matches (EvalCause.Renumbered ρ)
        (List.Forall₂ (Arg.Alike (.renumbered ρ) (.renumbered ρ))) r r' := by
  match derived with
  | .nil =>
      cases hxs
      exact ⟨_, .nil, .nil⟩
  | .literal rest =>
      obtain _ | ⟨⟨⟩, hrest⟩ := hxs
      obtain ⟨r', rest', same⟩ := prepares_renumbered h henv hrest rest
      exact ⟨_, .literal rest', same.map fun _ _ => .cons (.value (.str _))⟩
  | .block rest =>
      obtain _ | ⟨_ | _ | hx, hrest⟩ := hxs
      obtain ⟨r', rest', same⟩ := prepares_renumbered h henv hrest rest
      exact ⟨_, .block rest', same.map fun _ _ => .cons (.block hx)⟩
  | .skip rest =>
      obtain _ | ⟨_ | _ | _ | hx, hrest⟩ := hxs
      obtain ⟨r', rest', same⟩ := prepares_renumbered h henv hrest rest
      exact ⟨_, .skip rest', same.map fun _ _ => .cons (.deferred hx henv)⟩
  | .node computed rest =>
      obtain _ | ⟨_ | hij, hrest⟩ := hxs
      obtain ⟨r', computed', same⟩ := computes_renumbered h henv hij computed
      obtain ⟨w, rfl, hw⟩ := same.exists_ok rfl
      obtain ⟨r', rest', same⟩ := prepares_renumbered h henv hrest rest
      exact ⟨_, .node computed' rest', same.map fun _ _ => .cons (.value hw)⟩
  | .failure failed =>
      obtain _ | ⟨_ | hij, hrest⟩ := hxs
      obtain ⟨r', failed', same⟩ := computes_renumbered h henv hij failed
      obtain ⟨e', rfl, he⟩ := same.exists_error rfl
      exact ⟨_, .failure failed', he⟩

/-- **Demands.**  Operands that wait and bodies of sub-expressions are alike in the same
sense. -/
theorem meets_renumbered {env env' : Environment} {demand demand' : Demand} {n : Nat}
    {r : Except EvalCause Value}
    (h : Corresponds ρ host registry pool pool')
    (henv : Environment.Alike (.renumbered ρ) env env')
    (demands : Demand.Alike (.renumbered ρ) (.renumbered ρ) demand demand')
    (derived : Meets ⟨host, registry, pool⟩ env demand n r) :
    ∃ r', Meets ⟨host, registry, pool'⟩ env' demand' n r' ∧
      Matches (EvalCause.Renumbered ρ) (Value.Renumbered ρ) r r' := by
  match derived with
  | .force evaluated =>
      cases demands with
      | force suspensions =>
          have hx := suspensions.1.elim id id
          obtain ⟨r', evaluated', same⟩ := evaluates_renumbered h suspensions.2 hx evaluated
          exact ⟨r', .force evaluated', same⟩
  | .traverse gathered =>
      cases demands with
      | traverse _ items callees =>
          obtain ⟨r', gathered', same⟩ := gathers_renumbered h henv callees items gathered
          exact ⟨_, .traverse gathered', same.map fun _ _ => Value.alike_list_iff.mpr⟩
  | .keys =>
      cases demands
      refine ⟨_, .keys, Value.alike_list_iff.mpr (List.forall₂_same.mpr fun v mem => ?_)⟩
      obtain ⟨key, -, rfl⟩ := List.mem_map.mp mem
      exact .str key

/-- **One element**, to which corresponding callees are applied. -/
theorem applies_renumbered {env env' : Environment} {callee callee' : Callee} {how : Traversal}
    {item item' : Value} {n : Nat} {r : Except EvalCause Value}
    (h : Corresponds ρ host registry pool pool')
    (henv : Environment.Alike (.renumbered ρ) env env')
    (callees : Callee.Alike (.renumbered ρ) callee callee')
    (hitem : Value.Renumbered ρ item item')
    (derived : Applies ⟨host, registry, pool⟩ env callee how item n r) :
    ∃ r', Applies ⟨host, registry, pool'⟩ env' callee' how item' n r' ∧
      Matches (EvalCause.Renumbered ρ) (Value.Renumbered ρ) r r' := by
  have applications := Registry.apply_alike h.uniform (h.scope henv) callees (.cons hitem .nil)
  match derived with
  | .failure failed =>
      obtain ⟨cause', failed', causes⟩ := applications.exists_error failed
      exact ⟨_, .failure failed', .operator _ causes⟩
  | .value applied =>
      obtain ⟨_, applied', outcomes⟩ := applications.exists_ok applied
      cases outcomes with
      | value hv => exact ⟨_, .value applied', hv⟩
  | .demand applied met =>
      obtain ⟨_, applied', outcomes⟩ := applications.exists_ok applied
      cases outcomes with
      | demand demands =>
          obtain ⟨r', met', same⟩ := meets_renumbered h henv demands met
          exact ⟨r', .demand applied' met', same⟩

/-- **All elements of a list**, one after another. -/
theorem gathers_renumbered {env env' : Environment} {callee callee' : Callee} {how : Traversal}
    {items items' : List Value} {n : Nat} {r : Except EvalCause (List Value)}
    (h : Corresponds ρ host registry pool pool')
    (henv : Environment.Alike (.renumbered ρ) env env')
    (callees : Callee.Alike (.renumbered ρ) callee callee')
    (hitems : List.Forall₂ (Value.Renumbered ρ) items items')
    (derived : Gathers ⟨host, registry, pool⟩ env callee how items n r) :
    ∃ r', Gathers ⟨host, registry, pool'⟩ env' callee' how items' n r' ∧
      Matches (EvalCause.Renumbered ρ) (List.Forall₂ (Value.Renumbered ρ)) r r' := by
  match derived with
  | .nil =>
      cases hitems
      exact ⟨_, .nil, .nil⟩
  | .failure failed =>
      obtain _ | ⟨hitem, hrest⟩ := hitems
      obtain ⟨r', failed', same⟩ := applies_renumbered h henv callees hitem failed
      obtain ⟨e', rfl, he⟩ := same.exists_error rfl
      exact ⟨_, .failure failed', he⟩
  | .refused applied refused =>
      obtain _ | ⟨hitem, hrest⟩ := hitems
      obtain ⟨r', applied', same⟩ := applies_renumbered h henv callees hitem applied
      obtain ⟨w, rfl, hw⟩ := same.exists_ok rfl
      obtain ⟨cause', refused', causes⟩ :=
        (matches_combine host how hitem hw).exists_error refused
      exact ⟨_, .refused applied' refused', .operator _ causes⟩
  | .cons applied combined rest =>
      obtain _ | ⟨hitem, hrest⟩ := hitems
      obtain ⟨r', applied', same⟩ := applies_renumbered h henv callees hitem applied
      obtain ⟨w, rfl, hw⟩ := same.exists_ok rfl
      obtain ⟨ws, combined', hws⟩ := (matches_combine host how hitem hw).exists_ok combined
      obtain ⟨r', rest', same⟩ := gathers_renumbered h henv callees hrest rest
      exact ⟨_, .cons applied' combined' rest', same.map fun _ _ hrest => List.rel_append hws hrest⟩

end

end Derivations

end Semantics

/-! ### Evaluation -/

namespace Context

open Semantics

/-- An operand without a derivation uses up every budget.  So two operands of which neither has a
derivation run alike as well. -/
theorem exceeds_of_not_evaluates {context : Context} {env : Environment} {root : Operand}
    (endless : ∀ n r, ¬ Evaluates context env root n r) (s : Scheduler) :
    (context.evaluate s env root).1 = .error (.budgetExceeded s.budget) ∧
      (context.evaluate s env root).2.steps = s.budget := by
  cases hs : Evaluate.Frame.start context.pool env root with
  | error e =>
      obtain ⟨n, r, derived⟩ := evaluates_of_start_eq_error hs
      exact absurd derived (endless n r)
  | ok frame =>
      rcases evaluate_of_start_eq_ok s hs with ⟨_, _, _, -, ends, -⟩ | ⟨_, _, -, run⟩
      · obtain ⟨n, r, derived⟩ := evaluates_of_ends (fun m _ => derivable context m) hs ends
        exact absurd derived (endless n r)
      · exact ⟨by rw [run], by rw [run]⟩

/-- Two evaluations take the same steps.  Both use up their budget, or they come to
values or to causes that are the same but for numbers. -/
def SameRun (ρ : Nat → Nat → Prop) (run run' : Except EvalError Value × Schedule.Stats) : Prop :=
  run.2.steps = run'.2.steps ∧
    Option.Rel (Matches (EvalCause.Renumbered ρ) (Value.Renumbered ρ)) (seen? run.1) (seen? run'.1)

/-- **Evaluations do not depend on numbers.**  They come to corresponding values in as many steps,
or to the same error up to the numbers in it, or exceed the same budget. -/
theorem evaluate_renumbered {host : Host} {registry : Registry} {env : Environment}
    {x y : Operand} (forth : Corresponds ρ host registry pool pool')
    (back : Corresponds (fun i j => ρ j i) host registry pool' pool)
    (henv : ∀ name v, env.get? name = some v → v.IsData) (hx : Operand.Renumbered ρ x y)
    (s : Scheduler) :
    SameRun ρ (evaluate ⟨host, registry, pool⟩ s env x)
      (evaluate ⟨host, registry, pool'⟩ s env y) := by
  by_cases derivable : ∃ n r, Evaluates ⟨host, registry, pool⟩ env x n r
  · obtain ⟨n, r, derived⟩ := derivable
    obtain ⟨r', derived', same⟩ :=
      evaluates_renumbered forth (Environment.alike_of_data henv) hx derived
    -- Both derivations have the same number of steps, so one budget decides for both.
    rcases Nat.lt_or_ge s.budget n with short | enough
    · obtain ⟨exceeded, steps⟩ := evaluate_exceeds derived short
      obtain ⟨exceeded', steps'⟩ := evaluate_exceeds derived' short
      refine ⟨steps.trans steps'.symm, ?_⟩
      rw [exceeded, exceeded']
      exact .none
    · obtain ⟨seen, steps⟩ := evaluate_of_evaluates derived enough
      obtain ⟨seen', steps'⟩ := evaluate_of_evaluates derived' enough
      refine ⟨steps.trans steps'.symm, ?_⟩
      rw [seen, seen']
      exact .some same
  · -- A derivation on the other side would come back.
    have endless : ∀ n r, ¬ Evaluates ⟨host, registry, pool⟩ env x n r :=
      fun n r derived => derivable ⟨n, r, derived⟩
    have endless' : ∀ n r, ¬ Evaluates ⟨host, registry, pool'⟩ env y n r := by
      intro n r derived
      obtain ⟨r', derived', -⟩ :=
        evaluates_renumbered back (Environment.alike_of_data henv) hx.flip derived
      exact endless n r' derived'
    obtain ⟨exceeded, steps⟩ := exceeds_of_not_evaluates endless s
    obtain ⟨exceeded', steps'⟩ := exceeds_of_not_evaluates endless' s
    refine ⟨steps.trans steps'.symm, ?_⟩
    rw [exceeded, exceeded']
    exact .none

end Context

/-! ### The same tree -/

/-- Numbers at the same places of two visits correspond. -/
def Pool.numbering (v w : List Nat) (i j : Nat) : Prop :=
  (i, j) ∈ v.zip w

namespace Pool

variable {xs ys : List Operand} {ts : List Tree} {v w : List Nat}

/-- A visit without repetitions has each number at one place, so a number on the left has one on
the right. -/
theorem numbering_right (once : v.Nodup) (length : v.length = w.length) {i j k : Nat}
    (first : numbering v w i j) (second : numbering v w i k) : j = k := by
  have places : ((v.zip w).map Prod.fst).Nodup := by rwa [List.map_fst_zip (Nat.le_of_eq length)]
  exact (Prod.mk.inj (List.inj_on_of_nodup_map places first second rfl)).2

theorem numbering_left (once : w.Nodup) (length : v.length = w.length) {i j k : Nat}
    (first : numbering v w i k) (second : numbering v w j k) : i = j := by
  have places : ((v.zip w).map Prod.snd).Nodup := by
    rwa [List.map_snd_zip (Nat.le_of_eq length.symm)]
  exact (Prod.mk.inj (List.inj_on_of_nodup_map places first second rfl)).1

namespace Unfolds

/-- What is visited at the same places corresponds.  The induction is on the unfolding of one
side, and that of the other side has to take the same course, as both lead to the same trees. -/
theorem corresponding (h : pool.Unfolds xs ts v) (h' : pool'.Unfolds ys ts w) :
    v.length = w.length ∧ ∀ ρ : Nat → Nat → Prop, (∀ i j, (i, j) ∈ v.zip w → ρ i j) →
      List.Forall₂ (Operand.Renumbered ρ) xs ys ∧
        ∀ i j, (i, j) ∈ v.zip w → Corresponding ρ pool pool' i j := by
  induction h generalizing ys w with
  | nil =>
      cases h'
      exact ⟨rfl, fun ρ _ => ⟨.nil, nofun⟩⟩
  | literal _ ih =>
      obtain ⟨y, zs, w₁, w₂, rfl, rfl, first, rest⟩ := h'.exists_of_tree_cons
      obtain ⟨rfl, rfl⟩ := first.eq_of_tree_literal
      obtain ⟨length, numbered⟩ := ih rest
      refine ⟨length, fun ρ sub => ?_⟩
      obtain ⟨operands, nodes⟩ := numbered ρ sub
      exact ⟨.cons (.literal _) operands, nodes⟩
  | @node i node _ _ _ v₁ v₂ found _ _ ihInner ih =>
      obtain ⟨y, zs, w₁, w₂, rfl, rfl, first, rest⟩ := h'.exists_of_tree_cons
      obtain ⟨j, node', w₁, rfl, found', named, rfl, inner⟩ := first.exists_of_tree_node
      obtain ⟨lengthInner, numberedInner⟩ := ihInner inner
      obtain ⟨length, numbered⟩ := ih rest
      refine ⟨by simp [lengthInner, length], fun ρ sub => ?_⟩
      -- The two visits are equally long part by part, so their pairs can be split likewise.
      rw [List.cons_append, List.cons_append, List.zip_cons_cons, List.zip_append lengthInner]
        at sub ⊢
      have here := sub i j List.mem_cons_self
      have subInner := fun i j mem => sub i j (List.mem_cons_of_mem _ (List.mem_append_left _ mem))
      have subRest := fun i j mem => sub i j (List.mem_cons_of_mem _ (List.mem_append_right _ mem))
      obtain ⟨operandsInner, nodesInner⟩ := numberedInner ρ subInner
      obtain ⟨operands, nodes⟩ := numbered ρ subRest
      refine ⟨.cons (.node here) operands, fun k l mem => ?_⟩
      -- A pair is that of the node itself, or it is inside of an operand, or behind.
      rcases List.mem_cons.mp mem with same | mem
      · cases same
        exact ⟨node, node', found, found', named.symm, operandsInner⟩
      · rcases List.mem_append.mp mem with mem | mem
        · exact nodesInner k l mem
        · exact nodes k l mem
  | @block _ _ _ _ v₁ v₂ _ _ ihInner ih =>
      obtain ⟨y, zs, w₁, w₂, rfl, rfl, first, rest⟩ := h'.exists_of_tree_cons
      obtain ⟨y, rfl, inner⟩ := first.exists_of_tree_block
      obtain ⟨lengthInner, numberedInner⟩ := ihInner inner
      obtain ⟨length, numbered⟩ := ih rest
      refine ⟨by simp [lengthInner, length], fun ρ sub => ?_⟩
      rw [List.zip_append lengthInner] at sub ⊢
      obtain ⟨hinner, nodesInner⟩ :=
        numberedInner ρ fun i j mem => sub i j (List.mem_append_left _ mem)
      obtain ⟨operands, nodes⟩ := numbered ρ fun i j mem => sub i j (List.mem_append_right _ mem)
      obtain _ | ⟨hy, -⟩ := hinner
      refine ⟨.cons (.block hy) operands, fun k l mem => ?_⟩
      rcases List.mem_append.mp mem with mem | mem
      · exact nodesInner k l mem
      · exact nodes k l mem
  | @skip _ _ _ _ v₁ v₂ _ _ ihInner ih =>
      obtain ⟨y, zs, w₁, w₂, rfl, rfl, first, rest⟩ := h'.exists_of_tree_cons
      obtain ⟨y, rfl, inner⟩ := first.exists_of_tree_skip
      obtain ⟨lengthInner, numberedInner⟩ := ihInner inner
      obtain ⟨length, numbered⟩ := ih rest
      refine ⟨by simp [lengthInner, length], fun ρ sub => ?_⟩
      rw [List.zip_append lengthInner] at sub ⊢
      obtain ⟨hinner, nodesInner⟩ :=
        numberedInner ρ fun i j mem => sub i j (List.mem_append_left _ mem)
      obtain ⟨operands, nodes⟩ := numbered ρ fun i j mem => sub i j (List.mem_append_right _ mem)
      obtain _ | ⟨hy, -⟩ := hinner
      refine ⟨.cons (.skip hy) operands, fun k l mem => ?_⟩
      rcases List.mem_append.mp mem with mem | mem
      · exact nodesInner k l mem
      · exact nodes k l mem

/-- **Pools that unfold to the same tree correspond on the way**, if no node is visited
twice. -/
theorem renumbers (h : pool.Unfolds xs ts v) (h' : pool'.Unfolds ys ts w) (once : v.Nodup)
    (once' : w.Nodup) : pool.Renumbers (numbering v w) pool' ∧
      List.Forall₂ (Operand.Renumbered (numbering v w)) xs ys := by
  obtain ⟨length, numbered⟩ := h.corresponding h'
  obtain ⟨operands, nodes⟩ := numbered (numbering v w) fun _ _ mem => mem
  exact ⟨⟨numbering_right once length, numbering_left once' length, nodes _ _⟩, operands⟩

end Unfolds

end Pool

end RuleEngine
