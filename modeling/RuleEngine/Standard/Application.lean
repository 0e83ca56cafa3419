import RuleEngine.Registry.Build
import RuleEngine.Standard.Arguments

/-!
# Functions as values

Operators that make, bind and apply functions.  A function is given by its value
or by its name.

## Main definitions

* `subExpression`, `binding`, `joining` - the bodies that make values to be
  called or to be passed.
* `application`, `joinedCall`, `prefixCall` - the bodies that apply a callee: to
  one argument, to the joined arguments on the right, and to those that follow
  on it in one joined list.
* `applicationOperations` - the registrations.

## Design notes

**Calls are hand-overs.**  The three bodies that apply a callee reply with the callee
and its arguments, and do not run it.  Each of them has to show that this is less than
it was given, by weight: the function itself is gone, and nothing was added.

**Two ways to give several arguments.**  They may be bound one at a time, or joined by
commas and given together.  Joined arguments are a value of their own kind, and a value
that is no such list counts as the only argument.

**One operator makes sub-expressions.**  `=>` takes a literal and a braced body, and it
is the only operator that accepts braces.  It does not look at the environment.
-/

namespace RuleEngine.Standard

/-- A sub-expression of a name and a braced body. -/
def subExpression : Body := .direct fun _ args =>
  match args with
  | .value (.str name) :: .block body :: _ => .ok (.value (.subExpr name body))
  | _ =>
    .error (.invalid "RHS operand of `=>` must be an expression"
      ((args.take 2).filterMap Arg.value?))

/-- A function with one more argument bound. -/
def binding : Body := .direct fun scope args => do
  let (f, arg) ← pair args
  match ← scope.callee f "bind" with
  | .function f => return .value (← f.bind arg).toValue
  | .subExpr s => .error (.invalid "LHS operand not supported by `bind`" [s.toValue, arg])

/-- Two values joined for a call.  Joining is on the left: to joined values one
more is added. -/
def joining : Body := .direct fun _ args => do
  match ← pair args with
  | (.args items, right) => return .value (.args (items ++ [right]))
  | (left, right) => return .value (.args [left, right])

/-- The values that were joined, or the one value. -/
def joined : Value → List Value
  | .args items => items
  | other => [other]

theorem weightAll_joined (v : Value) : Value.weightAll (joined v) ≤ v.weight := by
  cases v <;> simp [joined, Value.weight, Value.weightAll]

/-- The callee of one argument on the left, applied to the right operand. -/
def application : Body where
  run scope args :=
    match pair args with
    | .error e => .error e
    | .ok (f, arg) =>
      match scope.callee f "apply" with
      | .error e => .error e
      | .ok callee =>
        if callee.missing = 1 then .ok (.apply callee [arg])
        else .error (.invalid "LHS operand not supported by `apply`" [callee.toValue, arg])
  lightens scope args f given h := by
    split at h
    · simp at h
    · rename_i left right hargs
      split at h
      · simp at h
      · rename_i callee hcallee
        split at h
        · simp only [Except.ok.injEq, Reply.apply.injEq] at h
          obtain ⟨rfl, rfl⟩ := h
          have := Scope.weight_of_callee hcallee
          simp only [weight_of_pair hargs, Value.weightAll_append, Value.weightAll]
          omega
        · simp at h

/-- The callee on the left, applied to the joined values on the right. -/
def joinedCall : Body where
  run scope args :=
    match pair args with
    | .error e => .error e
    | .ok (f, rest) =>
      match scope.callee f "callWith" with
      | .error e => .error e
      | .ok callee => .ok (.apply callee (joined rest))
  lightens scope args f given h := by
    split at h
    · simp at h
    · rename_i left right hargs
      split at h
      · simp at h
      · rename_i callee hcallee
        simp only [Except.ok.injEq, Reply.apply.injEq] at h
        obtain ⟨rfl, rfl⟩ := h
        have := Scope.weight_of_callee hcallee
        have := weightAll_joined right
        simp only [weight_of_pair hargs, Value.weightAll_append]
        omega

/-- The first of the joined values, applied to the others. -/
def prefixCall : Body where
  run scope args :=
    match single args with
    | .error e => .error e
    | .ok all =>
      match joined all with
      | [] => .error (.invalid "`call` needs a function" [])
      | f :: rest =>
        match scope.callee f "call" with
        | .error e => .error e
        | .ok callee => .ok (.apply callee rest)
  lightens scope args f given h := by
    split at h
    · simp at h
    · rename_i all hargs
      split at h
      · simp at h
      · rename_i first rest hjoined
        split at h
        · simp at h
        · rename_i callee hcallee
          simp only [Except.ok.injEq, Reply.apply.injEq] at h
          obtain ⟨rfl, rfl⟩ := h
          have := Scope.weight_of_callee hcallee
          have := weightAll_joined all
          rw [hjoined, Value.weightAll] at this
          simp only [weight_of_single hargs, Value.weightAll_append]
          omega

/-- The operators on functions. -/
def applicationOperations : List Registration :=
  [.operator "=>" .infix2 (some subExpression) none,
    .operator "bind" .infix2 (some binding) none,
    .operator "apply" .infix2 (some application) none,
    .operator "," .infix2 (some joining) none,
    .operator "callWith" .infix2 (some joinedCall) none,
    .operator "call" .prefix1 (some prefixCall) none]

end RuleEngine.Standard
