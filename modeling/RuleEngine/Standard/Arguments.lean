import RuleEngine.Operation.Body

/-!
# Taking arguments apart

The ways in which the standard operations read their arguments.

## Main definitions

* `evaluated`, `single`, `pair` - arguments that must all be evaluated.
* `pairWithArg` - an evaluated argument and one that may wait.
* `Scope.callee` - the callee that a value stands for.

## Main statements

* `weight_of_single`, `weight_of_pair`, `weight_of_callee` - taking arguments
  apart makes nothing heavier.

## Design notes

**The first problem is reported.**  Arguments are evaluated from left to right, and the
first one that is not evaluated is the error.  Only then are they counted.  A wrong
count cannot come about by parsing, as an operator gets the operands of its fixity, and
a function is run when all its arguments are there; so its error is an assertion.

**Weights stay the same.**  Taking arguments apart gives values that weigh as much as
the arguments did, all together.  This is what bodies that apply a callee have to show
for themselves: the callee has been taken off, and the rest is lighter.
-/

namespace RuleEngine

namespace Standard

/-- All arguments as values; the first unevaluated one is an error. -/
def evaluated : List Arg → Except OperationError (List Value)
  | [] => .ok []
  | arg :: rest =>
    match arg.toValue with
    | .error e => .error e
    | .ok v =>
      match evaluated rest with
      | .error e => .error e
      | .ok vs => .ok (v :: vs)

/-- The only argument, as a value. -/
def single (args : List Arg) : Except OperationError Value :=
  match evaluated args with
  | .error e => .error e
  | .ok [v] => .ok v
  | .ok vs => .error (.invalid "expected exactly one operand" (vs.drop 2))

/-- The only two arguments, as values. -/
def pair (args : List Arg) : Except OperationError (Value × Value) :=
  match evaluated args with
  | .error e => .error e
  | .ok [a, b] => .ok (a, b)
  | .ok vs => .error (.invalid "expected exactly two operands" (vs.drop 3))

/-- The only two arguments, of which the second may be unevaluated. -/
def pairWithArg (args : List Arg) : Except OperationError (Value × Arg) :=
  match args with
  | [left, right] => return (← left.toValue, right)
  | _ => do .error (.invalid "expected exactly two operands" (← evaluated (args.drop 3)))

/-! ### Weights -/

theorem weight_of_evaluated {args : List Arg} {vs : List Value} (h : evaluated args = .ok vs) :
    Arg.weightAll args = Value.weightAll vs := by
  induction args generalizing vs with
  | nil =>
    obtain rfl : [] = vs := by simpa [evaluated] using h
    rfl
  | cons arg rest ih =>
    rw [evaluated] at h
    split at h
    · simp at h
    · rename_i v hv
      split at h
      · simp at h
      · rename_i tail htail
        obtain rfl : v :: tail = vs := by simpa using h
        have : arg.weight = v.weight := by
          cases arg <;> simp_all [Arg.toValue, Arg.weight]
        rw [Arg.weightAll, this, ih htail, Value.weightAll]

theorem weight_of_single {args : List Arg} {v : Value} (h : single args = .ok v) :
    Arg.weightAll args = v.weight := by
  unfold single at h
  split at h
  · simp at h
  · rename_i w hw
    obtain rfl : w = v := by simpa using h
    simp [weight_of_evaluated hw, Value.weightAll]
  · simp at h

theorem weight_of_pair {args : List Arg} {a b : Value} (h : pair args = .ok (a, b)) :
    Arg.weightAll args = a.weight + b.weight := by
  unfold pair at h
  split at h
  · simp at h
  · rename_i x y hxy
    obtain ⟨rfl, rfl⟩ : x = a ∧ y = b := by simpa using h
    simp [weight_of_evaluated hxy, Value.weightAll]
  · simp at h

end Standard

/-- The callee that a value stands for on the left of the operator `op`: a
literal is the name of a function. -/
def Scope.callee (scope : Scope) (value : Value) (op : String) : Except OperationError Callee :=
  match value with
  | .function signature bound => .ok (.function ⟨signature, bound⟩)
  | .subExpr parameter body => .ok (.subExpr ⟨parameter, body⟩)
  | .str name => (scope.directory.resolve name).map .function
  | other => .error (.invalid ("LHS operand not supported by `" ++ op ++ "`") [other])

theorem Directory.bound_of_resolve {directory : Directory} {name : String} {f : FunctionValue}
    (h : directory.resolve name = .ok f) : f.bound = [] := by
  unfold Directory.resolve at h
  split at h
  split at h
  · simp at h
  · simp only [Except.ok.injEq] at h
    rw [← h]
    rfl
  · split at h
    · simp only [Except.ok.injEq] at h
      rw [← h]
      rfl
    · simp at h

/-- A function weighs more than its bound arguments, however it is given. -/
theorem Scope.weight_of_callee {scope : Scope} {value : Value} {op : String}
    {f : FunctionValue} (h : scope.callee value op = .ok (.function f)) :
    Value.weightAll f.bound < value.weight := by
  unfold Scope.callee at h
  split at h
  · simp only [Except.ok.injEq, Callee.function.injEq] at h
    rw [← h]
    simp [Value.weight]
  · simp at h
  · rename_i name
    cases hr : scope.directory.resolve name with
    | error e => simp [hr, Except.map] at h
    | ok g =>
      obtain rfl : g = f := by simpa [hr, Except.map] using h
      simp [Directory.bound_of_resolve hr, Value.weight, Value.weightAll]
  · simp at h

end RuleEngine
