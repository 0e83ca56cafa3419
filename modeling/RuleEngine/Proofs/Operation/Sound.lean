import RuleEngine.Proofs.Parse.Fold

/-!
# Sound values and safe computations

During an evaluation values are made that later steps rely on: a function that
is called has to be registered, a sub-expression leads into the pool, and joined
arguments are never empty.  A value is **sound** if it is like that, in all of
its parts.  A computation is **safe** if it gives what is promised or fails in a
way that is open to the author of an expression; the other failures are
assertions, which nothing that was parsed should ever break.

Assertions guard what bodies take for granted, such as the number and kind of their
operands, which the parser has seen to.  They are errors like others, with a text of
their own, and so they can be listed: an error is proper if its text is none of these.

## Main definitions

* `Value.IsData` - truth values, literals and lists of such.
* `Value.Sound`, `Arg.Sound`, `Callee.Sound`, `Demand.Sound`, `Outcome.Sound`,
  `Reply.Sound`, `Environment.Sound`, `Scope.Sound` - nothing in it is wrong.
* `OperationError.Proper` - an error that is not an assertion.
* `Safely` - a computation of a body gives what is promised, or fails properly.

## Main statements

* `Value.IsData.sound` - data is sound for any registry and any pool.
* `Safely.bind` - safe computations one after another are safe.
-/

namespace RuleEngine

/-- The value is made of truth values, literals and lists. -/
inductive Value.IsData : Value → Prop
  | bool (b : Bool) : IsData (.bool b)
  | str (s : String) : IsData (.str s)
  | list {items : List Value} : (∀ v ∈ items, IsData v) → IsData (.list items)

section Sound

variable (registry : Registry) (pool : Pool)

/-- The signature is that of a function. -/
def Registry.HasFunction (registry : Registry) (signature : Signature) : Prop :=
  ∃ d, registry.find? signature = some d ∧ d.role = .function

/-- Every function in the value is registered as a function and has no more
arguments bound than it takes, every sub-expression leads into the pool, and no
joined arguments are empty. -/
inductive Value.Sound : Value → Prop
  | bool (b : Bool) : Sound (.bool b)
  | str (s : String) : Sound (.str s)
  | list {items : List Value} : (∀ v ∈ items, Sound v) → Sound (.list items)
  | function {signature : Signature} {bound : List Value} : registry.HasFunction signature →
      bound.length ≤ signature.arity → (∀ v ∈ bound, Sound v) →
      Sound (.function signature bound)
  | subExpr {parameter : String} {body : Operand} : body.Within pool →
      Sound (.subExpr parameter body)
  | args {items : List Value} : items ≠ [] → (∀ v ∈ items, Sound v) → Sound (.args items)

/-- All values of the environment are sound. -/
def Environment.Sound (env : Environment) : Prop :=
  ∀ name v, env.get? name = some v → v.Sound registry pool

/-- All values of the host are sound. -/
def Host.Sound (host : Host) : Prop :=
  ∀ key v, host.get? key = some v → v.Sound registry pool

/-- The operand leads into the pool, and its environment is sound. -/
def Suspension.Sound (s : Suspension) : Prop :=
  s.operand.Within pool ∧ Environment.Sound registry pool s.env

/-- What is there of the argument is sound. -/
def Arg.Sound : Arg → Prop
  | value v => v.Sound registry pool
  | deferred s => s.Sound registry pool
  | block x => x.Within pool

/-- The callee is sound as a value. -/
def Callee.Sound (callee : Callee) : Prop :=
  callee.toValue.Sound registry pool

/-- What the demand asks for is sound. -/
def Demand.Sound : Demand → Prop
  | force s => s.Sound registry pool
  | traverse items callee _ => (∀ v ∈ items, v.Sound registry pool) ∧ callee.Sound registry pool
  | keys => True

/-- The value or the demand is sound. -/
def Outcome.Sound : Outcome → Prop
  | value v => v.Sound registry pool
  | demand d => d.Sound registry pool

/-- The outcome is sound, or the callee with its arguments. -/
def Reply.Sound : Reply → Prop
  | outcome o => o.Sound registry pool
  | apply callee given => callee.Sound registry pool ∧ ∀ v ∈ given, v.Sound registry pool

/-- All that a body may look at is sound, and every name is that of a function. -/
structure Scope.Sound (scope : Scope) : Prop where
  /-- The data of the host is sound. -/
  host : scope.host.Sound registry pool
  /-- The values of names are sound. -/
  env : Environment.Sound registry pool scope.env
  /-- The functions that have a name are registered. -/
  directory : ∀ entry ∈ scope.directory.arities, registry.HasFunction ⟨entry.1, entry.2⟩

end Sound

variable {registry : Registry} {pool : Pool}

/-- Data is sound for any registry and any pool: it has no function and no sub-expression in it. -/
theorem Value.IsData.sound {v : Value} (h : v.IsData) : v.Sound registry pool := by
  induction h with
  | bool b => exact .bool b
  | str s => exact .str s
  | list _ ih => exact .list ih

/-- An environment stays sound when a sound value is given a name. -/
theorem Environment.Sound.insert {env : Environment} {v : Value}
    (h : Environment.Sound registry pool env) (name : String) (hv : v.Sound registry pool) :
    Environment.Sound registry pool (env.insert name v) := by
  intro other w hw
  rw [Dictionary.get?_insert] at hw
  split at hw
  · cases hw
    exact hv
  · exact h other w hw

/-! ### Errors -/

/-- Complaints about arguments or functions that parsing does not lead to. -/
def assertions : List String :=
  ["function is not registered", "expected exactly one operand", "expected exactly two operands",
    "expected a condition and two branches", "`call` needs a function"]

/-- The error is not the complaint of an assertion. -/
def OperationError.Proper : OperationError → Prop
  | invalid complaint _ => complaint ∉ assertions
  | _ => True

/-- The computation gives what is promised, or fails properly. -/
def Safely {α : Type} (P : α → Prop) : Except OperationError α → Prop
  | .ok a => P a
  | .error e => e.Proper

section Safely

variable {α β : Type} {P : α → Prop} {Q : β → Prop}

/-- Safe computations one after another are safe.  The proofs for bodies are chains of this, one
link for each thing that a body looks up or checks. -/
theorem Safely.bind {x : Except OperationError α} {f : α → Except OperationError β}
    (h : Safely P x) (next : ∀ a, P a → Safely Q (f a)) : Safely Q (x >>= f) := by
  cases x with
  | error e => exact h
  | ok a => exact next a h

/-- What is made of a result that is promised is as good as the result. -/
theorem Safely.map {x : Except OperationError α} {f : α → β} (h : Safely P x)
    (next : ∀ a, P a → Q (f a)) : Safely Q (x.map f) := by
  cases x with
  | error e => exact h
  | ok a => exact next a h

/-- A complaint about operands is proper, unless it is one of those that are never to be seen. -/
theorem safely_invalid {complaint : String} {operands : List Value}
    (h : complaint ∉ assertions) :
    Safely P (.error (.invalid complaint operands)) :=
  h

end Safely

/-! ### Arguments and functions -/

/-- A sound argument is evaluated, or it is open to the author that it is not: a braced body or a
deferred operand stands where a value is needed. -/
theorem safely_toValue {arg : Arg} (h : arg.Sound registry pool) :
    Safely (Value.Sound registry pool) arg.toValue := by
  cases arg with
  | value v => exact h
  | deferred s => trivial
  | block x => trivial

/-- The outcome of a sound argument is sound, and a deferred one is demanded with its operand and
environment. -/
theorem safely_outcome {arg : Arg} (h : arg.Sound registry pool) :
    Safely (Outcome.Sound registry pool) arg.outcome := by
  cases arg with
  | value v => exact h
  | deferred s => exact h
  | block x => trivial

/-- A function with a name is registered, and a name that stands for none is the author's to
correct. -/
theorem safely_resolve {scope : Scope} (h : scope.Sound registry pool) (name : String) :
    Safely (fun f => f.toValue.Sound registry pool) (scope.directory.resolve name) := by
  have named : ∀ base arity, scope.directory.arity? base = some arity →
      (FunctionValue.new ⟨base, arity⟩).toValue.Sound registry pool := by
    intro base arity found
    obtain ⟨entry, hentry, rfl⟩ := Option.map_eq_some_iff.mp found
    obtain rfl : entry.1 = base := Table.key_of_find? hentry
    exact .function (h.directory entry (Table.mem_of_find? hentry)) (Nat.zero_le _) nofun
  unfold Directory.resolve
  split
  split
  · trivial
  · rename_i found _
    exact named _ _ found
  · rename_i found _
    split
    · exact named _ _ found
    · trivial

/-- Binding a sound argument to a sound function gives a sound one, or fails because the function
has all its arguments. -/
theorem FunctionValue.safely_bind {f : FunctionValue} {arg : Value}
    (hf : f.toValue.Sound registry pool) (harg : arg.Sound registry pool) :
    Safely (fun f => f.toValue.Sound registry pool) (f.bind arg) := by
  unfold FunctionValue.bind
  split
  · trivial
  · rename_i more
    cases hf with
    | function registered within hbound =>
        refine .function registered ?_ ?_
        · simp only [isSaturated, missing, beq_iff_eq] at more
          simp only [List.length_append, List.length_singleton]
          omega
        · intro v hv
          rcases List.mem_append.mp hv with hv | hv
          · exact hbound v hv
          · rw [List.mem_singleton.mp hv]
            exact harg

/-- To apply a sound sub-expression is to ask for a body that leads into the pool, in a sound
environment; a wrong number of arguments is the author's to correct. -/
theorem SubExpression.safely_apply {s : SubExpression} {env : Environment} {given : List Value}
    (hs : s.toValue.Sound registry pool) (henv : Environment.Sound registry pool env)
    (hgiven : ∀ v ∈ given, v.Sound registry pool) :
    Safely (Outcome.Sound registry pool) (s.apply env given) := by
  unfold SubExpression.apply
  split
  · rename_i arg
    cases hs with
    | subExpr within =>
        exact ⟨within, henv.insert s.parameter (hgiven arg (List.mem_singleton_self arg))⟩
  · trivial

end RuleEngine
