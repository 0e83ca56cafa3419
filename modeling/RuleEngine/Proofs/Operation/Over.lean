import RuleEngine.Proofs.Registry.Extension

/-!
# What sub-expressions consist of

A sub-expression is the only value with an operand in it.  Bodies of operations
hand sub-expressions on, in lists, in bound or joined arguments and in
environments, and `=>` makes new ones of braced bodies; but no body makes an
operand.  So whatever holds of all operands that a body is given holds of all
those in its reply.

The property of operands is left open.  Two of them are of interest: to lead into
some pool, and none at all, which only values without sub-expressions have.

Everything that an evaluation holds at one time is covered by this: values, arguments that
wait, callees, demands, replies, environments and the host.  For each of them there is
one way to say that a property holds of all operands in it, and the lemmas below say how
it moves from one to the other along the calls of bodies.

## Main definitions

* `Gives` - the result of a computation, if there is one, has a property.
* `Value.Over`, `Arg.Over`, `Callee.Over`, `Demand.Over`, `Outcome.Over`,
  `Reply.Over`, `Environment.Over`, `Host.Over`, `Scope.Over` - all operands in it
  have a property.
* `Body.Keeps`, `Registry.Keeps` - bodies that reply with no other operands than
  those that they are given.

## Main statements

* `Value.Over.mono` - a weaker property holds as well.
* `Registry.Keeps.call`, `Registry.Keeps.apply` - nor do calls of such bodies, through
  all hand-overs.
-/

namespace RuleEngine

/-! ### Computations -/

/-- The result of the computation, if there is one, has the property. -/
def Gives {ε α : Type} (P : α → Prop) : Except ε α → Prop
  | .ok a => P a
  | .error _ => True

section Gives

variable {ε α β : Type} {P : α → Prop} {P' : β → Prop}

/-- Computations one after another give what the last of them gives, provided that each one finds
what it needs. -/
theorem Gives.bind {x : Except ε α} {f : α → Except ε β} (h : Gives P x)
    (next : ∀ a, P a → Gives P' (f a)) : Gives P' (x >>= f) := by
  cases x with
  | error e => trivial
  | ok a => exact next a h

/-- What is made of a result has what follows from it. -/
theorem Gives.map {x : Except ε α} {f : α → β} (h : Gives P x) (next : ∀ a, P a → P' (f a)) :
    Gives P' (x.map f) := by
  cases x with
  | error e => trivial
  | ok a => exact next a h

end Gives

/-! ### Operands in values -/

section Over

variable (Q : Operand → Prop)

/-- The bodies of all sub-expressions in the value have the property. -/
inductive Value.Over : Value → Prop
  | bool (b : Bool) : Over (.bool b)
  | str (s : String) : Over (.str s)
  | list {items : List Value} : (∀ v ∈ items, Over v) → Over (.list items)
  | function {signature : Signature} {bound : List Value} : (∀ v ∈ bound, Over v) →
      Over (.function signature bound)
  | subExpr {parameter : String} {body : Operand} : Q body → Over (.subExpr parameter body)
  | args {items : List Value} : (∀ v ∈ items, Over v) → Over (.args items)

/-- So it is for all values of the environment. -/
def Environment.Over (env : Environment) : Prop :=
  ∀ name v, env.get? name = some v → v.Over Q

/-- So it is for all values of the host. -/
def Host.Over (host : Host) : Prop :=
  ∀ key v, host.get? key = some v → v.Over Q

/-- The operand has the property, and so have those in its environment. -/
def Suspension.Over (s : Suspension) : Prop :=
  Q s.operand ∧ Environment.Over Q s.env

/-- All operands in the argument have the property. -/
def Arg.Over : Arg → Prop
  | value v => v.Over Q
  | deferred s => s.Over Q
  | block x => Q x

/-- All operands in the callee have the property. -/
def Callee.Over (callee : Callee) : Prop :=
  callee.toValue.Over Q

/-- All operands in what the demand asks for have the property. -/
def Demand.Over : Demand → Prop
  | force s => s.Over Q
  | traverse items callee _ => (∀ v ∈ items, v.Over Q) ∧ callee.Over Q
  | keys => True

/-- All operands in the value or in the demand have the property. -/
def Outcome.Over : Outcome → Prop
  | value v => v.Over Q
  | demand d => d.Over Q

/-- All operands in the reply have the property. -/
def Reply.Over : Reply → Prop
  | outcome o => o.Over Q
  | apply callee given => callee.Over Q ∧ ∀ v ∈ given, v.Over Q

/-- All operands that a body may come across in its scope have the property. -/
structure Scope.Over (scope : Scope) : Prop where
  /-- Those in the data of the host. -/
  host : scope.host.Over Q
  /-- Those in the values of names. -/
  env : Environment.Over Q scope.env

end Over

variable {Q Q' : Operand → Prop}

@[simp] theorem Value.over_list_iff {items : List Value} :
    (Value.list items).Over Q ↔ ∀ v ∈ items, v.Over Q :=
  ⟨fun h => by cases h; assumption, .list⟩

@[simp] theorem Value.over_function_iff {signature : Signature} {bound : List Value} :
    (Value.function signature bound).Over Q ↔ ∀ v ∈ bound, v.Over Q :=
  ⟨fun h => by cases h; assumption, .function⟩

@[simp] theorem Value.over_subExpr_iff {parameter : String} {body : Operand} :
    (Value.subExpr parameter body).Over Q ↔ Q body :=
  ⟨fun h => by cases h; assumption, .subExpr⟩

@[simp] theorem Value.over_args_iff {items : List Value} :
    (Value.args items).Over Q ↔ ∀ v ∈ items, v.Over Q :=
  ⟨fun h => by cases h; assumption, .args⟩

/-- A weaker property holds as well.  An evaluation that adds nodes to a pool may go on with the
values that it had. -/
theorem Value.Over.mono {v : Value} (h : v.Over Q) (weaker : ∀ x, Q x → Q' x) : v.Over Q' := by
  induction h with
  | bool b => exact .bool b
  | str s => exact .str s
  | list _ ih => exact .list ih
  | function _ ih => exact .function ih
  | subExpr body => exact .subExpr (weaker _ body)
  | args _ ih => exact .args ih

theorem Environment.Over.mono {env : Environment} (h : Environment.Over Q env)
    (weaker : ∀ x, Q x → Q' x) : Environment.Over Q' env :=
  fun name v found => (h name v found).mono weaker

theorem Host.Over.mono {host : Host} (h : host.Over Q) (weaker : ∀ x, Q x → Q' x) :
    host.Over Q' :=
  fun key v found => (h key v found).mono weaker

/-- An environment with another value in it has the operands of that value, and those that it
had. -/
theorem Environment.over_insert {env : Environment} {v : Value} (h : Environment.Over Q env)
    (name : String) (hv : v.Over Q) : Environment.Over Q (env.insert name v) := by
  intro other w found
  rw [Dictionary.get?_insert] at found
  split at found
  · cases found
    exact hv
  · exact h other w found

/-! ### Arguments and functions -/

/-- The value of an argument has no operands but those of the argument. -/
theorem Arg.gives_toValue {arg : Arg} (h : arg.Over Q) : Gives (Value.Over Q) arg.toValue := by
  cases arg with
  | value v => exact h
  | deferred s => trivial
  | block x => trivial

/-- So it is for its outcome: if the argument waits, its operand and its environment are
demanded. -/
theorem Arg.gives_outcome {arg : Arg} (h : arg.Over Q) : Gives (Outcome.Over Q) arg.outcome := by
  cases arg with
  | value v => exact h
  | deferred s => exact h
  | block x => trivial

/-- A function that a name stands for has nothing bound, so there are no operands in it. -/
theorem Directory.gives_resolve (directory : Directory) (name : String) :
    Gives (fun f => f.toValue.Over Q) (directory.resolve name) := by
  cases found : directory.resolve name with
  | error e => trivial
  | ok f =>
      refine .function fun v hv => ?_
      rw [bound_of_resolve found] at hv
      cases hv

/-- A function with another argument bound has the operands of both. -/
theorem FunctionValue.gives_bind {f : FunctionValue} {arg : Value} (hf : f.toValue.Over Q)
    (harg : arg.Over Q) : Gives (fun f => f.toValue.Over Q) (f.bind arg) := by
  unfold FunctionValue.bind
  split
  · trivial
  · refine Value.Over.function fun v hv => ?_
    rcases List.mem_append.mp hv with hv | hv
    · exact Value.over_function_iff.mp hf v hv
    · rw [List.mem_singleton.mp hv]
      exact harg

/-- The body of a sub-expression is evaluated where the argument is known.  The operands of what
is demanded are the body and those of the environment. -/
theorem SubExpression.gives_apply {s : SubExpression} {env : Environment} {given : List Value}
    (hs : s.toValue.Over Q) (henv : Environment.Over Q env) (hgiven : ∀ v ∈ given, v.Over Q) :
    Gives (Outcome.Over Q) (s.apply env given) := by
  unfold SubExpression.apply
  split
  · rename_i arg
    have bound := hgiven arg (List.mem_singleton_self arg)
    exact ⟨Value.over_subExpr_iff.mp hs, Environment.over_insert henv s.parameter bound⟩
  · trivial

/-! ### Calls -/

/-- All operands in a reply of the body have a property that those have which the
body is given. -/
def Body.Keeps (body : Body) : Prop :=
  ∀ (Q : Operand → Prop) (scope : Scope) (args : List Arg), scope.Over Q →
    (∀ arg ∈ args, arg.Over Q) → Gives (Reply.Over Q) (body.run scope args)

namespace Registry

/-- So it is for all bodies of the registry. -/
def Keeps (registry : Registry) : Prop :=
  ∀ d ∈ registry.definitions, d.body.Keeps

variable {registry : Registry} {scope : Scope}

theorem Keeps.of_find? (keeps : registry.Keeps) {signature : Signature} {d : Definition}
    (found : registry.find? signature = some d) : d.body.Keeps :=
  keeps d (Table.mem_of_find? found)

/-- A function hands on what is bound and what is given, to a body that keeps. -/
theorem Keeps.target (keeps : registry.Keeps) {f : FunctionValue} {given : List Value}
    (hf : f.toValue.Over Q) (hgiven : ∀ v ∈ given, v.Over Q) :
    Gives (fun next => next.1.Keeps ∧ ∀ arg ∈ next.2, arg.Over Q) (registry.target f given) := by
  cases hit : registry.target f given with
  | error e => trivial
  | ok next =>
      obtain ⟨body, args⟩ := next
      obtain ⟨-, rfl, d, found, rfl⟩ := exists_of_target hit
      refine ⟨keeps.of_find? found, fun arg mem => ?_⟩
      obtain ⟨v, hv, rfl⟩ := List.mem_map.mp mem
      rcases List.mem_append.mp hv with hv | hv
      · exact Value.over_function_iff.mp hf v hv
      · exact hgiven v hv

/-- **Calls make no operands.**  The induction is that on the weight of the arguments, by which
calls come to an end: each hand-over passes on operands that were there. -/
theorem Keeps.call (keeps : registry.Keeps) (hscope : scope.Over Q) {body : Body}
    (hbody : body.Keeps) {args : List Arg} (hargs : ∀ arg ∈ args, arg.Over Q) :
    Gives (Outcome.Over Q) (registry.call scope body args) := by
  have replies := hbody Q scope args hscope hargs
  rw [call_eq]
  cases replied : body.run scope args with
  | error e => trivial
  | ok reply =>
      rw [replied] at replies
      match reply, replied, replies with
      | .outcome _, _, same => exact same
      | .apply (.subExpr _) _, _, handed =>
          exact SubExpression.gives_apply handed.1 hscope.env handed.2
      | .apply (.function f) given, replied, handed =>
          have next := keeps.target handed.1 handed.2
          dsimp only
          cases hit : registry.target f given with
          | error e => trivial
          | ok target =>
              obtain ⟨body', args'⟩ := target
              rw [hit] at next
              have _lighter := lighter_of_target replied hit
              exact Keeps.call keeps hscope next.1 next.2
termination_by Arg.weightAll args

/-- Nor does applying a callee, which runs the body of a function or asks for that of a
sub-expression. -/
theorem Keeps.apply (keeps : registry.Keeps) (hscope : scope.Over Q) {callee : Callee}
    {given : List Value} (hcallee : callee.Over Q) (hgiven : ∀ v ∈ given, v.Over Q) :
    Gives (Outcome.Over Q) (registry.apply scope callee given) := by
  cases callee with
  | subExpr s => exact SubExpression.gives_apply hcallee hscope.env hgiven
  | function f =>
      have next := keeps.target hcallee hgiven
      unfold Registry.apply
      dsimp only
      cases hit : registry.target f given with
      | error e => trivial
      | ok target =>
          rw [hit] at next
          exact keeps.call hscope next.1 next.2

end Registry

end RuleEngine
