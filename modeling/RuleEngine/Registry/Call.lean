import RuleEngine.Registry.Basic

/-!
# Running bodies

A registry runs the bodies of its definitions and goes on where they hand over.

## Main definitions

* `Registry.target` - the body that applying a function runs, and its arguments.
* `Registry.call` - the outcome of a body.
* `Registry.apply` - the outcome of applying a callee.

## Main statements

* `call_eq` - the equation of `call`.
* `weight_of_target` - a target's arguments are the bound and the given ones.
* `lighter_of_target` - so by `Body.lightens` every hand-over leads to lighter
  arguments, and `Registry.call` terminates.

## Design notes

**Calls are a recursion on weight.**  A body that hands over names a callee, and the
registry runs the body of that one, which may hand over again.  There is no limit on how
often, and no fuel: each hand-over passes on lighter arguments, which every body has
promised.

**Sub-expressions are not run here.**  To apply one is a demand for its body, and is met
by an evaluation of its own.  So a call comes to an end, even if the evaluation that it
asks for does not.
-/

namespace RuleEngine

namespace Registry

/-- The body that runs when a function is applied to exactly its missing
arguments, and the arguments it gets. -/
def target (registry : Registry) (f : FunctionValue) (given : List Value) :
    Except OperationError (Body × List Arg) :=
  if given.length ≠ f.missing then
    .error (.argumentCount f.signature.name f.missing given.length)
  else
    match registry.find? f.signature with
    | none => .error (.invalid "function is not registered" [f.toValue])
    | some d => .ok (d.body, (f.bound ++ given).map .value)

theorem weight_of_target {registry : Registry} {f : FunctionValue} {given : List Value}
    {body : Body} {args : List Arg} (h : registry.target f given = .ok (body, args)) :
    Arg.weightAll args = Value.weightAll (f.bound ++ given) := by
  unfold target at h
  split at h
  · simp at h
  · split at h
    · simp at h
    · simp only [Except.ok.injEq, Prod.mk.injEq] at h
      rw [← h.2, Arg.weightAll_map_value]

/-- **A hand-over leads to lighter arguments.**  The function itself is no longer among
them. -/
theorem lighter_of_target {registry : Registry} {scope : Scope} {body body' : Body}
    {args args' : List Arg} {f : FunctionValue} {given : List Value}
    (replied : body.run scope args = .ok (.apply (.function f) given))
    (hit : registry.target f given = .ok (body', args')) :
    Arg.weightAll args' < Arg.weightAll args := by
  rw [weight_of_target hit]
  exact body.lightens scope args f given replied

/-- The outcome of a body, through all hand-overs. -/
def call (registry : Registry) (scope : Scope) (body : Body) (args : List Arg) :
    Except OperationError Outcome :=
  match h : body.run scope args with
  | .error e => .error e
  | .ok (.outcome outcome) => .ok outcome
  | .ok (.apply (.subExpr s) given) => s.apply scope.env given
  | .ok (.apply (.function f) given) =>
    match ht : registry.target f given with
    | .error e => .error e
    | .ok (body', args') =>
      -- The function itself is no longer among the arguments.
      have _lighter : Arg.weightAll args' < Arg.weightAll args := by
        rw [weight_of_target ht]
        exact body.lightens scope args f given h
      call registry scope body' args'
termination_by Arg.weightAll args

/-- The equation of `call`, without what its termination needs. -/
theorem call_eq (registry : Registry) (scope : Scope) (body : Body) (args : List Arg) :
    registry.call scope body args =
      match body.run scope args with
      | .error e => .error e
      | .ok (.outcome outcome) => .ok outcome
      | .ok (.apply (.subExpr s) given) => s.apply scope.env given
      | .ok (.apply (.function f) given) =>
        match registry.target f given with
        | .error e => .error e
        | .ok (body', args') => registry.call scope body' args' := by
  rw [call]
  split
  · rename_i failed
    simp only [failed]
  · rename_i replied
    simp only [replied]
  · rename_i replied
    simp only [replied]
  · rename_i replied
    simp only [replied]
    split
    · rename_i missed
      simp only [missed]
    · rename_i hit
      simp only [hit]

/-- The outcome of applying a callee to arguments. -/
def apply (registry : Registry) (scope : Scope) (callee : Callee) (given : List Value) :
    Except OperationError Outcome :=
  match callee with
  | .subExpr s => s.apply scope.env given
  | .function f =>
    match registry.target f given with
    | .error e => .error e
    | .ok (body, args) => registry.call scope body args

end Registry

end RuleEngine
