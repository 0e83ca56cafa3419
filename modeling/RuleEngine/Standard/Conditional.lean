import RuleEngine.Registry.Build
import RuleEngine.Standard.Arguments

/-!
# Conditionals

A conditional evaluates its condition and then one of two branches.  It has
three spellings that come to the same node: `if c then x else y`,
`c ? x : y` and `?: c x y`.  The fourth one, `?:NS c x y`, evaluates both
branches first.

The words `then`, `else` and the sign `?` are operators of their own.  The nodes
they make only mark a place for the operator around them and have no meaning
elsewhere.

## Main definitions

* `branch` - the body of conditionals.
* `misplaced` - the body of the markers.
* `fromMarked`, `fromJoined`, `fromPlain` - the desugarings that make the one
  node.
* `conditionalOperations` - the registrations.

## Design notes

**Markers are looked for in the pool.**  When the operator `if` is reduced, its branches
have been reduced to the nodes of `then` and `else`.  The desugaring looks these nodes
up, takes their operands, and makes a node that does not refer to them.  The markers
stay behind in the pool.

**A marker in another place** is an operator like any other, and complains about its
place when it is evaluated.  So a misplaced word is reported by the evaluation, and not
by the parser, except where an operator misses its markers.
-/

namespace RuleEngine.Standard

/-- The second operand if the first one is true, otherwise the third one. -/
def branch : Body := .direct fun scope args => do
  match args with
  | [condition, first, second] =>
    if (← condition.toValue).isTruthy scope.host then first.outcome else second.outcome
  | _ => .error (.invalid "expected a condition and two branches" [])

/-- A marker outside its place, with the complaint about it. -/
def misplaced (complaint : String) : Body := .direct fun _ args => do
  .error (.invalid complaint (← evaluated args))

/-! ### Desugaring -/

/-- The one node of conditionals: both branches wait. -/
def conditional (condition first second : Operand) : Node :=
  ⟨"if", [condition, .skip first, .skip second]⟩

/-- The operand of a marker that an operand points at. -/
def marked? (pool : Pool) (marker : String) (operand : Operand) : Option Operand :=
  match pool.pointee? operand with
  | some ⟨name, [inner]⟩ => if name = marker then some inner else none
  | _ => none

/-- An `if` whose branches are marked by `then` and `else`. -/
def fromMarked : Desugaring := fun pool plain =>
  match plain.operands with
  | [condition, first, second] =>
    match marked? pool "then" first with
    | none => .error "`then` branch expected in `if` expression"
    | some first =>
      match marked? pool "else" second with
      | none => .error "`else` branch expected in `if` expression"
      | some second => .ok (conditional condition first second)
  | _ => .error "`if` takes a condition and two branches"

/-- A `:` whose condition and first branch are joined by `?`. -/
def fromJoined : Desugaring := fun pool plain =>
  match plain.operands with
  | [joined, second] =>
    match pool.pointee? joined with
    | some ⟨name, [condition, first]⟩ =>
      if name = "?" then .ok (conditional condition first second)
      else .error "`?` branch expected"
    | _ => .error "`?` branch expected"
  | _ => .error "`?` branch expected"

/-- A `?:` whose condition and branches are the operands. -/
def fromPlain : Desugaring := fun _ plain =>
  match plain.operands with
  | [condition, first, second] => .ok (conditional condition first second)
  | _ => .error "`?:` takes a condition and two branches"

/-- The operators of conditionals. -/
def conditionalOperations : List Registration :=
  [.operator "if" .prefix3 (some branch) (some fromMarked),
    .operator "then" .prefix1
      (some (misplaced "`then` is only valid inside an `if` expression")) none,
    .operator "else" .prefix1
      (some (misplaced "`else` is only valid inside an `if` expression")) none,
    .operator "?" .infix2 (some (misplaced "`:` branch expected")) none,
    .operator ":" .infix2 (some (misplaced "`?` branch expected")) (some fromJoined),
    .operator "?:" .prefix3 (some branch) (some fromPlain),
    .operator "?:NS" .prefix3 (some branch) none]

end RuleEngine.Standard
