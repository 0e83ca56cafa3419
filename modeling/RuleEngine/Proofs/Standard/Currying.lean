import RuleEngine.Proofs.Registry.Notation
import RuleEngine.Proofs.Standard.Agreement

/-!
# Functions and their arguments one at a time

A function may get its arguments in any portions.  What is bound first and what is
given in the end are one list of arguments, and the body runs on this list.  The
operators on functions differ in how they are written only: they bind, they join
arguments with commas, they take a function or its name, and all come to the same.

## Main definitions

* `FunctionValue.bindAll` - a function with arguments bound one after another.
* `Registry.chain?` - what an operator makes of operands, from the left.
* `Stands` - a function is given by its value or by its name.
* `Currying` - the laws.

## Main statements

* `FunctionValue.bindAll_eq` - as many arguments are bound as are missing.
* `Registry.apply_bound` - what was bound before does not matter.
* `Registry.chain?_binding`, `Registry.chain?_joining` - what the operators `bind` and
  `,` make of many operands.
* `currying` - the laws hold for all registries.
-/

namespace RuleEngine

/-! ### Binding -/

namespace FunctionValue

/-- The function with all arguments bound, one after another. -/
def bindAll (f : FunctionValue) (args : List Value) : Except OperationError FunctionValue :=
  args.foldlM bind f

/-- The function with more arguments behind those that are bound. -/
abbrev extended (f : FunctionValue) (args : List Value) : FunctionValue :=
  { f with bound := f.bound ++ args }

variable {f : FunctionValue} {args : List Value}

/-- Each argument that is bound is one that is missing no more. -/
theorem missing_extended (f : FunctionValue) (args : List Value) :
    (f.extended args).missing = f.missing - args.length := by
  simp only [missing, List.length_append]
  omega

theorem extended_append (f : FunctionValue) (xs ys : List Value) :
    (f.extended xs).extended ys = f.extended (xs ++ ys) := by
  simp only [extended, List.append_assoc]

theorem bind_eq (f : FunctionValue) (arg : Value) :
    f.bind arg = if f.missing = 0 then .error (.saturated f.signature.name f.signature.arity)
      else .ok (f.extended [arg]) := by
  simp only [bind, isSaturated, beq_iff_eq, extended]

/-- **As many arguments are bound as are missing.**  The next one is too many, and the error names
the function and its arity. -/
theorem bindAll_eq (f : FunctionValue) (args : List Value) :
    f.bindAll args =
      if args.length ≤ f.missing then .ok (f.extended args)
      else .error (.saturated f.signature.name f.signature.arity) := by
  induction args generalizing f with
  | nil => simp [bindAll, extended, pure, Except.pure]
  | cons arg rest ih =>
      have first : f.bindAll (arg :: rest) = f.bind arg >>= fun g => g.bindAll rest := by
        simp only [bindAll, List.foldlM_cons]
      rw [first, bind_eq]
      by_cases full : f.missing = 0
      · rw [if_pos full, full, if_neg (by simp)]
        rfl
      · rw [if_neg full]
        have later := ih (f.extended [arg])
        rw [missing_extended, extended_append] at later
        refine later.trans ?_
        have counts : rest.length ≤ f.missing - [arg].length ↔
            (arg :: rest).length ≤ f.missing := by
          simp only [List.length_cons, List.length_nil]
          omega
        simp only [counts, List.singleton_append]

end FunctionValue

namespace Registry

variable {registry : Registry} {scope : Scope} {f : FunctionValue} {d : Definition}
variable {xs ys args : List Value} {F : Value}

/-! ### Application -/

/-- A function that is applied to all the arguments that it misses runs its body, on those that
were bound and those that are given. -/
theorem apply_of_length_eq (found : registry.find? f.signature = some d)
    (complete : args.length = f.missing) :
    registry.apply scope (.function f) args =
      registry.call scope d.body ((f.bound ++ args).map .value) := by
  simp only [apply, target, complete, ne_eq, not_true_eq_false, if_false, found]

/-- With fewer or more of them it fails, and the error shows how many it misses. -/
theorem apply_of_length_ne (count : args.length ≠ f.missing) :
    registry.apply scope (.function f) args =
      .error (.argumentCount f.signature.name f.missing args.length) := by
  simp only [apply, target, if_pos count]

/-- A body that hands over a callee comes to what the callee comes to.  Handing over makes no
difference to the result. -/
theorem call_of_run_eq_apply {body : Body} {args : List Arg} {callee : Callee}
    {given : List Value} (replied : body.run scope args = .ok (.apply callee given)) :
    registry.call scope body args = registry.apply scope callee given := by
  rw [call_eq, replied]
  cases callee <;> rfl

/-- **Arguments that were bound before count like those that are given.**  Where a list of
arguments is split does not matter. -/
theorem apply_bound (found : registry.find? f.signature = some d)
    (complete : (xs ++ ys).length = f.missing) :
    registry.apply scope (.function (f.extended xs)) ys =
      registry.call scope d.body ((f.bound ++ (xs ++ ys)).map .value) := by
  have count : ys.length = (f.extended xs).missing := by
    rw [FunctionValue.missing_extended, ← complete, List.length_append]
    omega
  refine (apply_of_length_eq (f := f.extended xs) found count).trans ?_
  rw [List.append_assoc]

/-! ### Operators -/

/-- What an operator makes of a value and others, from the left: `x op y op z`.  There is
nothing if a step fails or makes a demand. -/
def chain? (registry : Registry) (scope : Scope) (op : Body) : Value → List Value → Option Value
  | x, [] => some x
  | x, y :: rest =>
    match registry.call scope op [.value x, .value y] with
    | .ok (.value z) => registry.chain? scope op z rest
    | _ => none

end Registry

/-- A function is given by its value or by its name. -/
def Stands (scope : Scope) (F : Value) (f : FunctionValue) : Prop :=
  F = f.toValue ∨ ∃ name, F = .str name ∧ scope.directory.resolve name = .ok f

namespace Registry

variable {registry : Registry} {scope : Scope} {f : FunctionValue} {d : Definition}
variable {xs ys args : List Value} {F b : Value}

/-- What stands for a function is taken as this function, by each operator. -/
theorem callee_of_stands (h : Stands scope F f) (op : String) :
    scope.callee F op = .ok (.function f) := by
  rcases h with rfl | ⟨name, rfl, resolved⟩
  · rfl
  · simp only [Scope.callee, resolved, Except.map]

/-- It is no list of arguments, so it is the first of them when arguments are joined. -/
theorem not_args_of_stands (h : Stands scope F f) (items : List Value) : F ≠ .args items := by
  rcases h with rfl | ⟨name, rfl, -⟩ <;> exact Value.noConfusion

/-- The operator for binding makes the value of a function with one more argument. -/
theorem call_binding (registry : Registry) (h : Stands scope F f) (room : f.missing ≠ 0)
    (arg : Value) :
    registry.call scope Standard.binding [.value F, .value arg] =
      .ok (.value (f.extended [arg]).toValue) := by
  refine Logic.call_direct ?_
  have called := callee_of_stands h "bind"
  have bound : f.bind arg = .ok (f.extended [arg]) := by
    rw [FunctionValue.bind_eq, if_neg room]
  simp only [Standard.pair, Standard.evaluated, Arg.toValue, bind, Except.bind, called, bound]
  rfl

/-- **Binding one argument after another** makes a value of the function with all of them. -/
theorem chain?_binding (registry : Registry) (h : Stands scope F f)
    (room : args.length ≤ f.missing) :
    ∃ g, registry.chain? scope Standard.binding F args = some g ∧
      Stands scope g (f.extended args) := by
  induction args generalizing F f with
  | nil =>
      refine ⟨F, rfl, ?_⟩
      simpa [FunctionValue.extended] using h
  | cons arg rest ih =>
      rw [List.length_cons] at room
      have room' : rest.length ≤ (f.extended [arg]).missing := by
        rw [FunctionValue.missing_extended, List.length_singleton]
        omega
      obtain ⟨g, made, stands⟩ := ih (F := (f.extended [arg]).toValue) (.inl rfl) room'
      rw [FunctionValue.extended_append] at stands
      refine ⟨g, ?_, stands⟩
      simp only [chain?, call_binding registry h (by omega) arg, made]

/-- The operator for joining puts an argument behind those that were joined already. -/
theorem call_joining_args (items : List Value) (right : Value) :
    registry.call scope Standard.joining [.value (.args items), .value right] =
      .ok (.value (.args (items ++ [right]))) :=
  Logic.call_direct rfl

theorem call_joining (single : ∀ items, b ≠ .args items) (right : Value) :
    registry.call scope Standard.joining [.value b, .value right] =
      .ok (.value (.args [b, right])) := by
  refine Logic.call_direct ?_
  cases b with
  | args items => exact absurd rfl (single items)
  | _ => rfl

theorem chain?_joining_args (items rest : List Value) :
    registry.chain? scope Standard.joining (.args items) rest = some (.args (items ++ rest)) := by
  induction rest generalizing items with
  | nil => simp [chain?]
  | cons right rest ih => simp [chain?, call_joining_args, ih]

/-- **Joining one value after another** makes a list of all, or leaves the only one as it is.  The
first one must not be a list of arguments itself. -/
theorem chain?_joining (registry : Registry) (scope : Scope)
    (single : ∀ items, b ≠ .args items) (rest : List Value) :
    ∃ all, registry.chain? scope Standard.joining b rest = some all ∧
      Standard.joined all = b :: rest := by
  cases rest with
  | nil =>
      refine ⟨b, rfl, ?_⟩
      cases b with
      | args items => exact absurd rfl (single items)
      | _ => rfl
  | cons right rest =>
      refine ⟨.args ([b, right] ++ rest), ?_, rfl⟩
      simp only [chain?, call_joining single, chain?_joining_args]

/-- To call with joined arguments is to apply the function to all of them. -/
theorem call_joinedCall (h : Stands scope F f) (rest : Value) :
    registry.call scope Standard.joinedCall [.value F, .value rest] =
      registry.apply scope (.function f) (Standard.joined rest) := by
  refine call_of_run_eq_apply ?_
  simp only [Standard.joinedCall, Standard.pair, Standard.evaluated, Arg.toValue,
    callee_of_stands h]

/-- To call in front is to apply the first of the joined values to the others. -/
theorem call_prefixCall {all : Value} (h : Stands scope F f)
    (joined : Standard.joined all = F :: args) :
    registry.call scope Standard.prefixCall [.value all] =
      registry.apply scope (.function f) args := by
  refine call_of_run_eq_apply ?_
  simp only [Standard.prefixCall, Standard.single, Standard.evaluated, Arg.toValue, joined,
    callee_of_stands h]

/-- To apply is to give one argument, if only one is missing. -/
theorem call_application (h : Stands scope F f) (last : f.missing = 1) (arg : Value) :
    registry.call scope Standard.application [.value F, .value arg] =
      registry.apply scope (.function f) [arg] := by
  refine call_of_run_eq_apply ?_
  simp only [Standard.application, Standard.pair, Standard.evaluated, Arg.toValue,
    callee_of_stands h, Callee.missing, last, if_true]

/-! ### Names -/

/-- The name of a registered function stands for it, with nothing bound. -/
theorem stands_of_build {all : List Registration} (built : build all = .ok registry)
    {name : String} {arity : Nat} {body : Body} (mem : .function name arity body ∈ all)
    (host : Host) (env : Environment) :
    Stands (registry.scope host env) (.str name) (.new ⟨name, arity⟩) :=
  .inr ⟨name, rfl, resolve_name built mem⟩

end Registry

/-! ### The laws -/

/-- The laws of functions and arguments. -/
structure Currying (registry : Registry) : Prop where
  /-- **As many arguments are bound as are missing**, and the next one is refused. -/
  bind : ∀ (f : FunctionValue) (args : List Value),
    f.bindAll args =
      if args.length ≤ f.missing then .ok (f.extended args)
      else .error (.saturated f.signature.name f.signature.arity)
  /-- **It does not matter which arguments were bound before.**  With as many arguments as
  are missing the body runs on all of them; with any other number both applications are
  refused, and what is bound is missing in both counts. -/
  apply : ∀ {f d}, registry.find? f.signature = some d → ∀ (scope : Scope) (xs ys : List Value),
    xs.length ≤ f.missing → ∃ g, f.bindAll xs = .ok g ∧
      if (xs ++ ys).length = f.missing then
        registry.apply scope (.function g) ys = registry.apply scope (.function f) (xs ++ ys) ∧
        registry.apply scope (.function f) (xs ++ ys) =
          registry.call scope d.body ((f.bound ++ (xs ++ ys)).map .value)
      else
        registry.apply scope (.function f) (xs ++ ys) =
          .error (.argumentCount f.signature.name f.missing (xs ++ ys).length) ∧
        registry.apply scope (.function g) ys = .error (.argumentCount f.signature.name
          (f.missing - xs.length) ((xs ++ ys).length - xs.length))
  /-- **The operators agree.**  To bind some arguments and to call the result with the
  others, to call the function with all of them, or to apply it to the last one comes to
  what the body comes to.  The first one that is not bound must not be a list of joined
  arguments, to which a comma would add the others. -/
  operators : ∀ {f d}, registry.find? f.signature = some d → ∀ {scope F}, Stands scope F f →
    ∀ (xs : List Value) (b : Value) (bs : List Value), (xs ++ b :: bs).length = f.missing →
      (∀ items, b ≠ .args items) →
      ∃ g rest all, registry.chain? scope Standard.binding F xs = some g ∧
        registry.chain? scope Standard.joining b bs = some rest ∧
        registry.chain? scope Standard.joining F (xs ++ b :: bs) = some all ∧
        let outcome := registry.call scope d.body ((f.bound ++ (xs ++ b :: bs)).map .value)
        registry.call scope Standard.joinedCall [.value g, .value rest] = outcome ∧
        registry.call scope Standard.prefixCall [.value all] = outcome ∧
        (bs = [] → registry.call scope Standard.application [.value g, .value b] = outcome)
  /-- Each function that is registered is found, and its name stands for it. -/
  registered : ∀ {all}, Registry.build all = .ok registry →
    ∀ {name arity body}, .function name arity body ∈ all →
      registry.find? ⟨name, arity⟩ = some ⟨⟨name, arity⟩, .function, body, none⟩ ∧
      ∀ host env, Stands (registry.scope host env) (.str name) (.new ⟨name, arity⟩)

/-- **The laws hold for all registries**, whatever functions are registered and whatever their
bodies do. -/
theorem currying (registry : Registry) : Currying registry where
  bind := FunctionValue.bindAll_eq
  apply := by
    intro f d found scope xs ys room
    refine ⟨f.extended xs, by rw [FunctionValue.bindAll_eq, if_pos room], ?_⟩
    split
    · rename_i complete
      have whole : registry.apply scope (.function f) (xs ++ ys) = _ :=
        Registry.apply_of_length_eq found complete
      exact ⟨(Registry.apply_bound found complete).trans whole.symm, whole⟩
    · rename_i other
      have others : (xs ++ ys).length - xs.length = ys.length := by
        rw [List.length_append, Nat.add_sub_cancel_left]
      have count : ys.length ≠ (f.extended xs).missing := by
        rw [FunctionValue.missing_extended]
        rw [List.length_append] at other
        omega
      refine ⟨Registry.apply_of_length_ne other, ?_⟩
      rw [Registry.apply_of_length_ne count, FunctionValue.missing_extended, others]
  operators := by
    intro f d found scope F stands xs b bs complete single
    -- At least one argument is given in the end, so all others can be bound.
    have room : xs.length < f.missing := by
      rw [← complete, List.length_append, List.length_cons]
      omega
    obtain ⟨g, bound, stands'⟩ := Registry.chain?_binding registry stands (Nat.le_of_lt room)
    obtain ⟨rest, joinedRest, restItems⟩ := Registry.chain?_joining registry scope single bs
    obtain ⟨all, joinedAll, allItems⟩ := Registry.chain?_joining registry scope
      (Registry.not_args_of_stands stands) (xs ++ b :: bs)
    refine ⟨g, rest, all, bound, joinedRest, joinedAll, ?_, ?_, ?_⟩
    · rw [Registry.call_joinedCall stands', restItems]
      exact Registry.apply_bound found complete
    · rw [Registry.call_prefixCall stands allItems]
      exact Registry.apply_of_length_eq found complete
    · rintro rfl
      have last : (f.extended xs).missing = 1 := by
        rw [FunctionValue.missing_extended, ← complete, List.length_append, List.length_singleton]
        omega
      rw [Registry.call_application stands' last]
      exact Registry.apply_bound found complete
  registered := by
    intro all built name arity body mem
    exact ⟨Registry.find?_of_build built mem rfl, Registry.stands_of_build built mem⟩

/-- The three forms of a call of `Concat` by its name, with the first argument bound. -/
theorem currying_concat :
    let scope := Registry.standard.scope (Record.toHost .empty) .empty
    let outcome : Except OperationError Outcome := .ok (.value (.str "ab"))
    ∃ g rest all,
      Registry.standard.chain? scope Standard.binding (.str "Concat") [.str "a"] = some g ∧
      Registry.standard.chain? scope Standard.joining (.str "b") [] = some rest ∧
      Registry.standard.chain? scope Standard.joining (.str "Concat") [.str "a", .str "b"] =
        some all ∧
      Registry.standard.call scope Standard.joinedCall [.value g, .value rest] = outcome ∧
      Registry.standard.call scope Standard.prefixCall [.value all] = outcome ∧
      Registry.standard.call scope Standard.application [.value g, .value (.str "b")] =
        outcome := by
  intro scope outcome
  have mem : .function "Concat" 2 Standard.concatenation ∈ Standard.library := by
    simp [Standard.library, Standard.sequenceFunctions]
  obtain ⟨found, stands⟩ := (currying .standard).registered Standard.build_library mem
  obtain ⟨g, rest, all, bound, joinedRest, joinedAll, byJoined, byPrefix, byLast⟩ :=
    (currying .standard).operators found (stands (Record.toHost .empty) .empty)
      [.str "a"] (.str "b") [] rfl nofun
  have called : Registry.standard.call scope Standard.concatenation
      [.value (.str "a"), .value (.str "b")] = outcome := Logic.call_direct rfl
  exact ⟨g, rest, all, bound, joinedRest, joinedAll, byJoined.trans called,
    byPrefix.trans called, (byLast rfl).trans called⟩

end RuleEngine
