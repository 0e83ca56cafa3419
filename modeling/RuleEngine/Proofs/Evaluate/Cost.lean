import Mathlib.Algebra.GroupWithZero.Nat
import Mathlib.Data.List.Forall2
import RuleEngine.Proofs.Evaluate.Adequacy
import RuleEngine.Proofs.Operation.Unfold
import RuleEngine.Standard.Library

/-!
# What evaluation costs

The number of steps that an operand takes is that of its parts and a few more.  A
literal takes one step.  A node takes one to hand over its value and one to run its
body; two for each operand that is a node, which has to be begun and whose value has to
be put in its place, besides what the operand itself costs; and, if the body makes a
demand, what it takes to meet that.  Operands that wait and braced bodies are passed as
they are, so they cost nothing unless the body asks for them.

The law is about evaluation itself: both its sides count steps of `Context.evaluate`.
Derivations already count them, so what is left is to read the rules for nodes and
demands as sums, and to add these up over the tree that a node unfolds to.

## Main definitions

* `Context.Takes` - an operand comes to a value in so many steps.
* `Context.Passes`, `Context.PassesAll` - what the operands of a node become, and what
  that costs the node.
* `Context.Adds` - what the outcome of a body costs the node that it belongs to.
* `Context.Costs` - the sum of these for a node.
* `Tree.applications`, `Tree.idle` - the nodes of a tree that are evaluated in any case,
  and the others.
* `Context.Immediate` - no body of such a node makes a demand.

## Main statements

* `Context.takes_iff` - derivations count the steps.
* `Context.adds_of_meets` - what is met adds the steps of its derivation.
* `Context.exists_cost_of_takes` - the law for nodes.
* `Context.cost_of_unfolds` - nodes without demands cost three steps each.
* `Context.evaluate_cost_law` - the whole law.
-/

namespace RuleEngine

open Schedule (Scheduler)

namespace Tree

mutual

/-- The nodes that are evaluated for a tree which is an operand of a node, if nothing is
demanded: itself and those for its own operands, but nothing in braces and nothing that
waits. -/
def applications : Tree → Nat
  | literal _ => 0
  | node _ operands => applicationsAll operands + 1
  | block _ => 0
  | skip _ => 0

/-- The nodes that are evaluated for several operands. -/
def applicationsAll : List Tree → Nat
  | [] => 0
  | t :: rest => t.applications + applicationsAll rest

end

mutual

/-- All other nodes: those in braces, and those of operands that wait. -/
def idle : Tree → Nat
  | literal _ => 0
  | node _ operands => idleAll operands
  | block inner => inner.applications + inner.idle
  | skip inner => inner.applications + inner.idle

/-- All other nodes of several operands. -/
def idleAll : List Tree → Nat
  | [] => 0
  | t :: rest => t.idle + idleAll rest

end

end Tree

/-- Every occurrence of a node is evaluated or idle: the visit of an unfolding is as long as both
together, so a tree can be measured by either. -/
theorem Pool.Unfolds.length_visited {pool : Pool} {xs : List Operand} {ts : List Tree}
    {visited : List Nat} (h : pool.Unfolds xs ts visited) :
    visited.length = Tree.applicationsAll ts + Tree.idleAll ts := by
  induction h with
  | nil => rfl
  | literal _ ih =>
      simpa [Tree.applicationsAll, Tree.idleAll, Tree.applications, Tree.idle] using ih
  | node _ _ _ ihInner ih =>
      simp only [Tree.applicationsAll, Tree.idleAll, Tree.applications, Tree.idle, List.cons_append,
        List.length_cons, List.length_append]
      omega
  | block _ _ ihInner ih | skip _ _ ihInner ih =>
      simp only [Tree.applicationsAll, Tree.idleAll, Tree.applications, Tree.idle,
        List.length_append] at ihInner ih ⊢
      omega

/-- To evaluate the node with one index is to evaluate that with the other, as itself or
for its operands. -/
inductive Pool.Needs (pool : Pool) : Nat → Nat → Prop
  | here (i : Nat) : Needs pool i i
  | operand {i j k node} : pool.get? i = some node → .node j ∈ node.operands →
      Needs pool j k → Needs pool i k

namespace Context

open Semantics (Evaluates Computes Prepares Meets Applies Gathers scopeIn)

/-- Evaluated in `env`, the operand comes to the value in `n` steps. -/
def Takes (context : Context) (env : Environment) (x : Operand) (v : Value) (n : Nat) : Prop :=
  ∃ (scheduler : Scheduler) (depth : Nat), context.evaluate scheduler env x = (.ok v, ⟨n, depth⟩)

variable {context : Context} {env : Environment} {x : Operand} {v : Value} {i n : Nat}

/-- Derivations count the steps.  By this, every rule of the semantics is a statement about the
counter of an evaluation. -/
theorem takes_iff : context.Takes env x v n ↔ Evaluates context env x n (.ok v) := by
  constructor
  · rintro ⟨scheduler, depth, run⟩
    have kept : (context.evaluate scheduler env x).1 ≠
        .error (.budgetExceeded scheduler.budget) := by
      rw [run]
      exact nofun
    obtain ⟨m, r, within, derived⟩ := evaluates_of_evaluate kept
    obtain ⟨seen, steps⟩ := evaluate_of_evaluates derived within
    rw [run] at seen steps
    obtain rfl : n = m := steps
    obtain rfl := Option.some.inj seen
    exact derived
  · intro derived
    have within : n ≤ (Scheduler.new 2 n).budget := Nat.le_refl n
    obtain ⟨seen, steps⟩ := evaluate_of_evaluates derived within
    generalize run : context.evaluate (.new 2 n) env x = outcome at seen steps
    obtain ⟨result, ⟨count, depth⟩⟩ := outcome
    obtain rfl := seen?_eq_ok_iff.mp seen
    obtain rfl : count = n := steps
    exact ⟨.new 2 count, depth, run⟩

/-- An operand comes to one value, in one number of steps, whatever budgets and batches its
evaluations have. -/
theorem Takes.unique {w : Value} {m : Nat} (h : context.Takes env x v n)
    (h' : context.Takes env x w m) : v = w ∧ n = m := by
  have within : n ≤ (Scheduler.new 2 (max n m)).budget := Nat.le_max_left n m
  have within' : m ≤ (Scheduler.new 2 (max n m)).budget := Nat.le_max_right n m
  obtain ⟨seen, steps⟩ := evaluate_of_evaluates (takes_iff.mp h) within
  obtain ⟨seen', steps'⟩ := evaluate_of_evaluates (takes_iff.mp h') within'
  exact ⟨Except.ok.inj (Option.some.inj (seen.symm.trans seen')), steps.symm.trans steps'⟩

/-! ### What the parts of a node cost -/

variable (context) in
/-- An operand of a node becomes an argument, at some cost for the node: that of a node
is two steps more than the steps that it takes itself before it hands over its value. -/
inductive Passes (env : Environment) : Operand → Arg → Nat → Prop
  | literal (text : String) : Passes env (.literal text) (.value (.str text)) 0
  | block (x : Operand) : Passes env (.block x) (.block x) 0
  | skip (x : Operand) : Passes env (.skip x) (.deferred ⟨x, env⟩) 0
  | node {i v c} : context.Takes env (.node i) v (1 + c) →
      Passes env (.node i) (.value v) (2 + c)

variable (context) in
/-- All operands of a node become arguments, each at its cost. -/
abbrev PassesAll (env : Environment) (operands : List Operand) (passed : List (Arg × Nat)) : Prop :=
  List.Forall₂ (fun x p => context.Passes env x p.1 p.2) operands passed

mutual

/-- What the outcome of a body costs: nothing if it is a value, and otherwise what it
takes to meet the demand. -/
inductive Adds (context : Context) (env : Environment) : Outcome → Nat → Prop
  | value (v : Value) : Adds context env (.value v) 0
  | force {suspension v n} : context.Takes suspension.env suspension.operand v n →
      Adds context env (.demand (.force suspension)) n
  | traverse {items callee n} (how : Traversal) : AddsAll context env callee items n →
      Adds context env (.demand (.traverse items callee how)) (items.length + 1 + n)
  | keys : Adds context env (.demand .keys) (context.host.keys.length + 1)

/-- What the outcomes for all elements of a list cost together. -/
inductive AddsAll (context : Context) (env : Environment) : Callee → List Value → Nat → Prop
  | nil (callee : Callee) : AddsAll context env callee [] 0
  | cons {callee item items outcome m n} :
      context.registry.apply (scopeIn context env) callee [item] = .ok outcome →
      Adds context env outcome m → AddsAll context env callee items n →
      AddsAll context env callee (item :: items) (m + n)

end

/-- The steps of a node before it hands over its value: one for the body, those for the
operands, and those for the outcome. -/
def Costs (context : Context) (env : Environment) (i c : Nat) : Prop :=
  ∃ (node : Node) (d : Definition) (passed : List (Arg × Nat)) (outcome : Outcome) (k : Nat),
    context.pool.get? i = some node ∧ context.registry.find? node.signature = some d ∧
    context.PassesAll env node.operands passed ∧
    context.registry.call (scopeIn context env) d.body (passed.map Prod.fst) = .ok outcome ∧
    context.Adds env outcome k ∧ c = 1 + (passed.map Prod.snd).sum + k

/-! ### Demands -/

mutual

/-- What is met adds the steps of its derivation: those of the forced operand, those of the
elements of a list, or one for each key and one more. -/
theorem adds_of_meets {env : Environment} {demand : Demand} {n : Nat}
    {r : Except EvalCause Value} (h : Meets context env demand n r) :
    ∀ v, r = .ok v → Adds context env (.demand demand) n := by
  match h with
  | .force evaluated =>
      rintro v rfl
      exact .force (takes_iff.mpr evaluated)
  | .traverse (r := gathered) gathers =>
      have all := addsAll_of_gathers gathers
      intro v hv
      cases gathered with
      | error cause => cases hv
      | ok vs =>
          obtain ⟨k, adds, rfl⟩ := all vs rfl
          exact .traverse _ adds
  | .keys =>
      intro v _
      exact .keys

/-- An application takes one step, and what its outcome costs.  A value costs nothing more. -/
theorem adds_of_applies {env : Environment} {callee : Callee} {how : Traversal} {item : Value}
    {n : Nat} {r : Except EvalCause Value} (h : Applies context env callee how item n r) :
    ∀ v, r = .ok v → ∃ outcome k,
      context.registry.apply (scopeIn context env) callee [item] = .ok outcome ∧
      Adds context env outcome k ∧ n = k + 1 := by
  match h with
  | .failure _ => exact nofun
  | .value applied => exact fun v _ => ⟨_, 0, applied, .value _, rfl⟩
  | .demand applied met =>
      have adds := adds_of_meets met
      exact fun v hv => ⟨_, _, applied, adds v hv, rfl⟩

/-- A list takes one step for each element, one more to end it, and what the outcomes cost. -/
theorem addsAll_of_gathers {env : Environment} {callee : Callee} {how : Traversal}
    {items : List Value} {n : Nat} {r : Except EvalCause (List Value)}
    (h : Gathers context env callee how items n r) :
    ∀ vs, r = .ok vs → ∃ k, AddsAll context env callee items k ∧ n = items.length + 1 + k := by
  match h with
  | .nil => exact fun vs _ => ⟨0, .nil callee, rfl⟩
  | .failure _ => exact nofun
  | .refused _ _ => exact nofun
  | .cons (r := rest) applied _ gathers =>
      have first := adds_of_applies applied
      have others := addsAll_of_gathers gathers
      intro vs hvs
      cases rest with
      | error cause => cases hvs
      | ok ws =>
          obtain ⟨outcome, k, called, adds, rfl⟩ := first _ rfl
          obtain ⟨l, all, rfl⟩ := others ws rfl
          refine ⟨k + l, .cons called adds all, ?_⟩
          rw [List.length_cons]
          omega

end

/-! ### Nodes -/

/-- A node among operands costs two steps more than its own: it is begun in one and its value is
put in place in another. -/
theorem passes_of_computes {c : Nat} (h : Computes context env i c (.ok v)) :
    context.Passes env (.node i) (.value v) (2 + c) := by
  refine .node (takes_iff.mpr ?_)
  rw [Nat.add_comm]
  exact .value h

/-- A value that is the image of a result is the image of a value. -/
theorem exists_ok_of_map {α β ε : Type} {f : α → β} {r : Except ε α} {b : β}
    (h : Except.ok b = r.map f) : ∃ a, r = .ok a ∧ b = f a := by
  cases r with
  | error e => cases h
  | ok a => exact ⟨a, rfl, Except.ok.inj h⟩

/-- If operands become arguments, the first one passes, and the steps are its cost and those of
the others. -/
theorem exists_passed_of_prepares_cons {rest : List Operand} {args : List Arg}
    (h : Prepares context env (x :: rest) n (.ok args)) :
    ∃ arg c others m, context.Passes env x arg c ∧ Prepares context env rest m (.ok others) ∧
      args = arg :: others ∧ n = c + m := by
  generalize result : Except.ok args = r at h
  cases h with
  | literal prepared =>
      obtain ⟨others, rfl, rfl⟩ := exists_ok_of_map result
      exact ⟨_, 0, others, n, .literal _, prepared, rfl, by omega⟩
  | block prepared =>
      obtain ⟨others, rfl, rfl⟩ := exists_ok_of_map result
      exact ⟨_, 0, others, n, .block _, prepared, rfl, by omega⟩
  | skip prepared =>
      obtain ⟨others, rfl, rfl⟩ := exists_ok_of_map result
      exact ⟨_, 0, others, n, .skip _, prepared, rfl, by omega⟩
  | node computed prepared =>
      obtain ⟨others, rfl, rfl⟩ := exists_ok_of_map result
      exact ⟨_, _, others, _, passes_of_computes computed, prepared, rfl, by omega⟩
  | failure _ => cases result

/-- All operands of a node pass, and the steps are their costs, added up from first to last. -/
theorem exists_passed_of_prepares {operands : List Operand} {args : List Arg}
    (h : Prepares context env operands n (.ok args)) :
    ∃ passed : List (Arg × Nat),
      context.PassesAll env operands passed ∧
      passed.map Prod.fst = args ∧ (passed.map Prod.snd).sum = n := by
  induction operands generalizing args n with
  | nil =>
      cases h
      exact ⟨[], .nil, rfl, rfl⟩
  | cons x rest ih =>
      obtain ⟨arg, c, others, m, first, prepared, rfl, rfl⟩ := exists_passed_of_prepares_cons h
      obtain ⟨passed, each, rfl, rfl⟩ := ih prepared
      exact ⟨(arg, c) :: passed, .cons first each, rfl, rfl⟩

/-- **The law for nodes.**  The steps of a node are the one in which it hands over its value, and
its cost: one for the body, those of the operands, and those of the outcome. -/
theorem exists_cost_of_takes (h : context.Takes env (.node i) v n) :
    ∃ c, n = 1 + c ∧ context.Costs env i c := by
  cases takes_iff.mp h with
  | @value _ _ c _ computed =>
      refine ⟨c, Nat.add_comm c 1, ?_⟩
      cases computed with
      | value found prepared registered call =>
          obtain ⟨passed, each, rfl, rfl⟩ := exists_passed_of_prepares prepared
          exact ⟨_, _, passed, _, 0, found, registered, each, call, .value v, by omega⟩
      | demand found prepared registered call met =>
          obtain ⟨passed, each, rfl, rfl⟩ := exists_passed_of_prepares prepared
          have adds := adds_of_meets met v rfl
          exact ⟨_, _, passed, _, _, found, registered, each, call, adds, by omega⟩

/-- Only nodes cost anything to pass.  Literals, braced bodies and operands that wait are
arguments from the start. -/
theorem Passes.eq_zero {arg : Arg} {c : Nat} (h : context.Passes env x arg c)
    (leaf : ∀ i, x ≠ .node i) : c = 0 := by
  cases h with
  | literal _ | block _ | skip _ => rfl
  | node _ => exact absurd rfl (leaf _)

/-- To pass a node costs two steps more than the node does. -/
theorem Passes.exists_cost {arg : Arg} {c : Nat} (h : context.Passes env (.node i) arg c) :
    ∃ c', c = 2 + c' ∧ context.Costs env i c' := by
  cases h with
  | node takes =>
      obtain ⟨c, steps, costs⟩ := exists_cost_of_takes takes
      exact ⟨c, by omega, costs⟩

/-- A literal alone takes the one step in which it is handed over. -/
theorem takes_literal {text : String} (h : context.Takes env (.literal text) v n) : n = 1 := by
  cases takes_iff.mp h
  rfl

theorem not_takes_block : ¬ context.Takes env (.block x) v n := by
  intro h
  cases takes_iff.mp h

theorem takes_skip_iff : context.Takes env (.skip x) v n ↔ context.Takes env x v n := by
  rw [takes_iff, takes_iff]
  constructor
  · rintro (_ | _ | inner | _ | _)
    exact inner
  · exact .skip

/-! ### Nodes without demands -/

/-- No node that is evaluated for the node with index `i` makes a demand. -/
def Immediate (context : Context) (env : Environment) (i : Nat) : Prop :=
  ∀ (j : Nat) (node : Node) (d : Definition) (passed : List (Arg × Nat)) (demand : Demand),
    context.pool.Needs i j → context.pool.get? j = some node →
    context.registry.find? node.signature = some d →
    context.PassesAll env node.operands passed →
    context.registry.call (scopeIn context env) d.body (passed.map Prod.fst) ≠
      .ok (.demand demand)

/-- Where no body makes a demand, none does for the operands. -/
theorem Immediate.operand {node : Node} {j : Nat} (h : context.Immediate env i)
    (found : context.pool.get? i = some node) (mem : .node j ∈ node.operands) :
    context.Immediate env j :=
  fun k _ d passed demand needed => h k _ d passed demand (.operand found mem needed)

/-- If no body makes a demand, an operand that is a node costs three steps for each node that is
evaluated for it: two to begin it and to put its value in place, and one to run its body.  A node
that is met twice costs twice as much, so the nodes are those of the tree and not those of the
pool. -/
theorem cost_of_unfolds {xs : List Operand} {ts : List Tree} {visited : List Nat}
    {passed : List (Arg × Nat)} (h : context.pool.Unfolds xs ts visited)
    (each : context.PassesAll env xs passed)
    (immediate : ∀ i, .node i ∈ xs → context.Immediate env i) :
    (passed.map Prod.snd).sum = 3 * Tree.applicationsAll ts := by
  induction h generalizing passed with
  | nil =>
      cases each
      rfl
  | literal _ ih | block _ _ _ ih | skip _ _ _ ih =>
      cases each with
      | cons first each =>
          have rest := ih each fun i mem => immediate i (List.mem_cons_of_mem _ mem)
          rw [List.map_cons, List.sum_cons, rest, first.eq_zero nofun, Tree.applicationsAll,
            Tree.applications]
          omega
  | node found _ _ ihInner ih =>
      cases each with
      | cons first each =>
          have rest := ih each fun i mem => immediate i (List.mem_cons_of_mem _ mem)
          have here := immediate _ List.mem_cons_self
          obtain ⟨c, cost, node, d, inner, outcome, k, found', registered, operands, call, adds,
            rfl⟩ := first.exists_cost
          obtain rfl := Option.some.inj (found.symm.trans found')
          have below := ihInner operands fun j mem => here.operand found mem
          -- What the body replies is a value, which adds nothing.
          cases adds with
          | value v =>
              rw [List.map_cons, List.sum_cons, rest, cost, below, Tree.applicationsAll,
                Tree.applications]
              omega
          | force _ | traverse _ _ | keys =>
              exact absurd call (here _ _ d inner _ (.here _) found registered operands)

/-- Alone, a node hands over its value in one step, where a node among operands takes two to be
begun and to have its value put in place.  This is the one step less. -/
theorem takes_of_unfolds {t : Tree} {visited : List Nat}
    (h : context.pool.Unfolds [.node i] [t] visited) (takes : context.Takes env (.node i) v n)
    (immediate : context.Immediate env i) : n + 1 = 3 * t.applications := by
  obtain ⟨c, rfl, -⟩ := exists_cost_of_takes takes
  have passes : context.PassesAll env [.node i] [(.value v, 2 + c)] := .cons (.node takes) .nil
  have cost := cost_of_unfolds h passes fun j mem => by
    obtain rfl := Operand.node.inj (List.mem_singleton.mp mem)
    exact immediate
  simp only [List.map_cons, List.map_nil, List.sum_cons, List.sum_nil, Tree.applicationsAll] at cost
  omega

/-- An operand that comes to a value comes to that of the node it leads to, through any number of
delays. -/
theorem Takes.of_reference? (h : context.Takes env x v n) (leads : x.reference? = some i) :
    context.Takes env (.node i) v n := by
  induction x with
  | literal text => cases leads
  | node j =>
      cases leads
      exact h
  | block x _ => exact absurd h not_takes_block
  | skip x ih => exact ih (takes_skip_iff.mp h) leads

/-- **The cost law.**  No operand comes to two values, or to one in different numbers of
steps.  A literal takes one step, a braced body has no value, and an operand that waits
takes what it takes without waiting.  A node hands over its value one step after its body,
its operands and what its body asks for are done.  So if no body asks for anything, a node
that unfolds to a tree takes three steps for each node of the tree that is not idle, but
one step less for itself. -/
theorem evaluate_cost_law (context : Context) (acyclic : context.pool.Acyclic)
    (env : Environment) :
    (∀ x v w n m, context.Takes env x v n → context.Takes env x w m → v = w ∧ n = m) ∧
    (∀ text v n, context.Takes env (.literal text) v n → n = 1) ∧
    (∀ x v n, ¬ context.Takes env (.block x) v n) ∧
    (∀ x v n, context.Takes env (.skip x) v n ↔ context.Takes env x v n) ∧
    (∀ i v n, context.Takes env (.node i) v n → ∃ c, n = 1 + c ∧ context.Costs env i c) ∧
    (∀ (x : Operand) i v n, x.reference? = some i → context.Takes env x v n →
      ∃ t visited, context.pool.Unfolds [.node i] [t] visited ∧
        visited.length = t.applications + t.idle ∧
        (context.Immediate env i → n + 1 = 3 * t.applications)) := by
  refine ⟨fun _ _ _ _ _ => Takes.unique, fun _ _ _ => takes_literal, fun _ _ _ => not_takes_block,
    fun _ _ _ => takes_skip_iff, fun _ _ _ => exists_cost_of_takes, ?_⟩
  intro x i v n leads takes
  have alone := takes.of_reference? leads
  obtain ⟨c, -, node, -, -, -, -, found, -⟩ := exists_cost_of_takes alone
  have within : (Operand.node i).Within context.pool := by
    rintro j ⟨rfl⟩
    exact Pool.lt_of_get? found
  obtain ⟨t, visited, unfolds⟩ := acyclic.exists_unfolds within
  have occurrences := unfolds.length_visited
  simp only [Tree.applicationsAll, Tree.idleAll, Nat.add_zero] at occurrences
  exact ⟨t, visited, unfolds, occurrences, takes_of_unfolds unfolds alone⟩

/-! ### A negated equality -/

/-- The nodes of `!('a' == 'b')`, under the standard library. -/
def negatedEquality : Context :=
  ⟨Record.toHost .empty, .standard,
    ⟨#[⟨"==", [.literal "a", .literal "b"]⟩, ⟨"!", [.node 0]⟩]⟩⟩

/-- The nodes of the example: an equality, and the negation of it. -/
theorem get?_negatedEquality :
    negatedEquality.pool.get? 0 = some ⟨"==", [.literal "a", .literal "b"]⟩ ∧
      negatedEquality.pool.get? 1 = some ⟨"!", [.node 0]⟩ :=
  ⟨rfl, rfl⟩

theorem call_negatedEquality : negatedEquality.registry.call (scopeIn negatedEquality .empty)
    Standard.equality [.value (.str "a"), .value (.str "b")] = .ok (.value (.bool false)) := by
  rw [Registry.call_eq]
  rfl

/-- A negation replies with the opposite of its argument's truth at once. -/
theorem call_negatedEquality_negation (v : Value) :
    negatedEquality.registry.call (scopeIn negatedEquality .empty) Standard.negation [.value v] =
      .ok (.value (.bool (!v.isTruthy negatedEquality.host))) := by
  rw [Registry.call_eq]
  rfl

/-- The negation refers to the node before it, and the equality to none. -/
theorem acyclic_negatedEquality : negatedEquality.pool.Acyclic :=
  (Pool.acyclic_empty.push (by decide)).push (by decide)

/-- Both operations reply with values to the arguments that are passed to them. -/
theorem immediate_negatedEquality : negatedEquality.Immediate .empty 1 := by
  intro j node d passed demand _ found registered operands call
  match j with
  | 0 =>
      obtain rfl := Option.some.inj (get?_negatedEquality.1.symm.trans found)
      obtain rfl := Option.some.inj registered
      obtain _ | @⟨_, ⟨a, m⟩, _, _, left, _ | @⟨_, ⟨b, n⟩, _, _, right, _ | _⟩⟩ := operands
      cases left
      cases right
      cases call_negatedEquality.symm.trans call
  | 1 =>
      obtain rfl := Option.some.inj (get?_negatedEquality.2.symm.trans found)
      obtain rfl := Option.some.inj registered
      obtain _ | @⟨_, ⟨a, m⟩, _, _, operand, _ | _⟩ := operands
      cases operand
      cases (call_negatedEquality_negation _).symm.trans call
  | _ + 2 => cases found

theorem takes_negatedEquality : negatedEquality.Takes .empty (.node 1) (.bool true) 5 := by
  have inner : Computes negatedEquality .empty 0 1 (.ok (.bool false)) :=
    .value rfl (.literal (.literal .nil)) rfl call_negatedEquality
  have outer : Evaluates negatedEquality .empty (.node 1) 5 (.ok (.bool true)) :=
    .value (.value rfl (.node inner .nil) rfl (call_negatedEquality_negation _))
  exact takes_iff.mpr outer

/-- The negation takes five steps, of which three are for its operand. -/
theorem evaluate_cost_negated_equality :
    negatedEquality.pool.Acyclic ∧ negatedEquality.Immediate .empty 1 ∧
      negatedEquality.Takes .empty (.node 1) (.bool true) 5 ∧
      ∀ v n, negatedEquality.Takes .empty (.node 1) v n → n = 5 := by
  refine ⟨acyclic_negatedEquality, immediate_negatedEquality, takes_negatedEquality, ?_⟩
  intro v n takes
  obtain ⟨-, -, -, -, -, law⟩ := evaluate_cost_law negatedEquality acyclic_negatedEquality .empty
  obtain ⟨t, visited, unfolds, -, steps⟩ := law (.node 1) 1 v n rfl takes
  have tree : negatedEquality.pool.Unfolds [.node 1]
      [.node "!" [.node "==" [.literal "a", .literal "b"]]] [1, 0] :=
    .of_node get?_negatedEquality.2 (.of_node get?_negatedEquality.1 (.literal (.literal .nil)))
  cases (unfolds.unique tree).1
  have total : n + 1 = 3 * 2 := steps immediate_negatedEquality
  omega

end Context

end RuleEngine
