import Mathlib.Data.List.Forall2
import Mathlib.Data.List.Zip
import RuleEngine.Proofs.Operation.Sound
import RuleEngine.Proofs.Registry.Extension

/-!
# Evaluations that differ in their operands only

Two evaluations may go the same way although the operands in their values are not
the same.  What they come across is then alike: the same values, but for the
bodies of sub-expressions, and the same requests, but for the operands that wait.
Bodies of operations cannot tell the difference as long as different bodies of
sub-expressions are alike to different ones, because values are compared.

Nothing is said about when operands are alike.  They may stand for the same nodes
of two pools; and if no two bodies are alike, then what is alike to itself has no
sub-expression in it.

Two comparisons of evaluations are made with this.  If the nodes of a pool are numbered
in another way, operands are alike if their numbers correspond.  And if values are to
have no sub-expression at all, a body is alike to none, and an evaluation is compared
with itself.  In both, the bodies of the registry are looked at once, for the property
that is called uniform here, and steps are compared after that.

## Main definitions

* `Likeness` - when bodies of sub-expressions are alike, and which functions may
  occur in values.
* `Requests` - when waiting operands are alike, and whether lists may be gone
  through.
* `Matches` - two computations both fail or both succeed, with related results.
* `Value.Alike`, `Arg.Alike`, `OperationError.Alike`, `Outcome.Alike`, … - the
  same but for alike operands.
* `Body.Uniform` - alike arguments have alike replies.

## Main statements

* `Value.Alike.eq_iff` - equality of values is respected.
* `Registry.call_alike`, `Registry.apply_alike` - uniform bodies have alike
  outcomes, through all hand-overs.
-/

namespace RuleEngine

/-! ### Computations -/

/-- Both computations fail with related errors, or both succeed with related
results. -/
def Matches {ε ε' α β : Type} (E : ε → ε' → Prop) (R : α → β → Prop) :
    Except ε α → Except ε' β → Prop
  | .ok a, .ok b => R a b
  | .error e, .error e' => E e e'
  | _, _ => False

namespace Matches

variable {ε ε' α β α' β' : Type} {E : ε → ε' → Prop} {R : α → β → Prop} {R' : α' → β' → Prop}
variable {x : Except ε α} {y : Except ε' β}

/-- Computations one after another match if the first steps do, and the later ones do for related
results. -/
theorem bind {f : α → Except ε α'} {g : β → Except ε' β'} (h : Matches E R x y)
    (next : ∀ a b, R a b → Matches E R' (f a) (g b)) : Matches E R' (x >>= f) (y >>= g) := by
  match x, y, h with
  | .ok a, .ok b, h => exact next a b h
  | .error e, .error e', h => exact h

theorem map {f : α → α'} {g : β → β'} (h : Matches E R x y)
    (next : ∀ a b, R a b → R' (f a) (g b)) : Matches E R' (x.map f) (y.map g) := by
  match x, y, h with
  | .ok a, .ok b, h => exact next a b h
  | .error e, .error e', h => exact h

theorem imp {R' : α → β → Prop} (h : Matches E R x y) (weaker : ∀ a b, R a b → R' a b) :
    Matches E R' x y := by
  match x, y, h with
  | .ok a, .ok b, h => exact weaker a b h
  | .error e, .error e', h => exact h

/-- If one of two matching computations succeeds, so does the other, with a related result. -/
theorem exists_ok (h : Matches E R x y) {a : α} (hx : x = .ok a) : ∃ b, y = .ok b ∧ R a b := by
  subst hx
  match y, h with
  | .ok b, h => exact ⟨b, rfl, h⟩

/-- If one of them fails, so does the other, with an alike error. -/
theorem exists_error (h : Matches E R x y) {e : ε} (hx : x = .error e) :
    ∃ e', y = .error e' ∧ E e e' := by
  subst hx
  match y, h with
  | .error e', h => exact ⟨e', rfl, h⟩

end Matches

/-! ### Values -/

/-- What is not looked at in values, and what does not occur in them. -/
structure Likeness where
  /-- Bodies of sub-expressions are alike. -/
  body : Operand → Operand → Prop
  /-- Functions of this signature may occur. -/
  callable : Signature → Prop

/-- A body of a sub-expression is alike to one other body only. -/
structure Likeness.Injective (L : Likeness) : Prop where
  /-- On the right. -/
  right : ∀ {x y y'}, L.body x y → L.body x y' → y = y'
  /-- On the left. -/
  left : ∀ {x x' y}, L.body x y → L.body x' y → x = x'

/-- What bodies of operations may ask for. -/
structure Requests where
  /-- Operands that wait are alike. -/
  waiting : Operand → Operand → Prop
  /-- Lists and keys may be gone through. -/
  loops : Prop

section Alike

variable (L : Likeness) (A : Requests)

/-- The values are the same but for alike bodies of sub-expressions.  Elements are
compared at the same places. -/
inductive Value.Alike : Value → Value → Prop
  | bool (b : Bool) : Alike (.bool b) (.bool b)
  | str (s : String) : Alike (.str s) (.str s)
  | list {vs ws : List Value} : vs.length = ws.length → (∀ p ∈ vs.zip ws, Alike p.1 p.2) →
      Alike (.list vs) (.list ws)
  | function {signature : Signature} {vs ws : List Value} : L.callable signature →
      vs.length = ws.length → (∀ p ∈ vs.zip ws, Alike p.1 p.2) →
      Alike (.function signature vs) (.function signature ws)
  | subExpr {parameter : String} {x y : Operand} : L.body x y →
      Alike (.subExpr parameter x) (.subExpr parameter y)
  | args {vs ws : List Value} : vs.length = ws.length → (∀ p ∈ vs.zip ws, Alike p.1 p.2) →
      Alike (.args vs) (.args ws)

/-- The names are the same, and their values are alike. -/
def Environment.Alike (env env' : Environment) : Prop :=
  ∀ name, Option.Rel (Value.Alike L) (env.get? name) (env'.get? name)

/-- The operands are alike, and so are their environments. -/
def Suspension.Alike (s s' : Suspension) : Prop :=
  (A.waiting s.operand s'.operand ∨ L.body s.operand s'.operand) ∧
    Environment.Alike L s.env s'.env

/-- The arguments are alike values, or they wait alike. -/
inductive Arg.Alike : Arg → Arg → Prop
  | value {v w : Value} : Value.Alike L v w → Alike (.value v) (.value w)
  | deferred {s s' : Suspension} : A.waiting s.operand s'.operand →
      Environment.Alike L s.env s'.env → Alike (.deferred s) (.deferred s')
  | block {x y : Operand} : A.waiting x y → Alike (.block x) (.block y)

/-- The callees are alike as values. -/
def Callee.Alike (callee callee' : Callee) : Prop :=
  Value.Alike L callee.toValue callee'.toValue

/-- The same is asked for, of alike things. -/
inductive Demand.Alike : Demand → Demand → Prop
  | force {s s' : Suspension} : Suspension.Alike L A s s' → Alike (.force s) (.force s')
  | traverse {vs ws : List Value} {callee callee' : Callee} {how : Traversal} : A.loops →
      List.Forall₂ (Value.Alike L) vs ws → Callee.Alike L callee callee' →
      Alike (.traverse vs callee how) (.traverse ws callee' how)
  | keys : A.loops → Alike .keys .keys

/-- The outcomes are alike values or alike demands. -/
inductive Outcome.Alike : Outcome → Outcome → Prop
  | value {v w : Value} : Value.Alike L v w → Alike (.value v) (.value w)
  | demand {d d' : Demand} : Demand.Alike L A d d' → Alike (.demand d) (.demand d')

/-- The replies are alike outcomes, or they hand over alike things. -/
inductive Reply.Alike : Reply → Reply → Prop
  | outcome {o o' : Outcome} : Outcome.Alike L A o o' → Alike (.outcome o) (.outcome o')
  | apply {callee callee' : Callee} {vs ws : List Value} : Callee.Alike L callee callee' →
      List.Forall₂ (Value.Alike L) vs ws → Alike (.apply callee vs) (.apply callee' ws)

/-- The failures are the same but for alike operands shown. -/
inductive OperationError.Alike : OperationError → OperationError → Prop
  | absentKey (key : String) : Alike (.absentKey key) (.absentKey key)
  | unboundName (name : String) : Alike (.unboundName name) (.unboundName name)
  | unknownReduction {v w : Value} : Value.Alike L v w →
      Alike (.unknownReduction v) (.unknownReduction w)
  | unevaluated {x y : Operand} : A.waiting x y → Alike (.unevaluated x) (.unevaluated y)
  | unevaluatedBlock {x y : Operand} : A.waiting x y →
      Alike (.unevaluated (.block x)) (.unevaluated (.block y))
  | saturated (name : String) (arity : Nat) : Alike (.saturated name arity) (.saturated name arity)
  | argumentCount (name : String) (expected got : Nat) :
      Alike (.argumentCount name expected got) (.argumentCount name expected got)
  | unknownFunction (name : String) : Alike (.unknownFunction name) (.unknownFunction name)
  | otherArity (name : String) (arity : Nat) :
      Alike (.otherArity name arity) (.otherArity name arity)
  | invalid {complaint : String} {vs ws : List Value} : List.Forall₂ (Value.Alike L) vs ws →
      Alike (.invalid complaint vs) (.invalid complaint ws)

/-- The host and the directory are the same, and the values of names are alike. -/
structure Scope.Alike (scope scope' : Scope) : Prop where
  /-- The data of the host. -/
  host : scope.host = scope'.host
  /-- Its values are alike to themselves. -/
  data : ∀ key v, scope.host.get? key = some v → Value.Alike L v v
  /-- The values of names. -/
  env : Environment.Alike L scope.env scope'.env
  /-- The functions that have a name. -/
  directory : scope.directory = scope'.directory
  /-- They may occur in values. -/
  callable : ∀ name f, scope.directory.resolve name = .ok f → L.callable f.signature

end Alike

variable {L : Likeness} {A : Requests} {v w : Value} {vs ws : List Value}

namespace Value

@[simp] theorem alike_list_iff :
    Alike L (.list vs) (.list ws) ↔ List.Forall₂ (Alike L) vs ws := by
  rw [List.forall₂_iff_zip]
  constructor
  · rintro (_ | _ | ⟨length, elements⟩)
    exact ⟨length, fun mem => elements _ mem⟩
  · rintro ⟨length, elements⟩
    exact .list length fun p mem => elements mem

@[simp] theorem alike_args_iff :
    Alike L (.args vs) (.args ws) ↔ List.Forall₂ (Alike L) vs ws := by
  rw [List.forall₂_iff_zip]
  constructor
  · rintro (_ | _ | _ | _ | _ | ⟨length, elements⟩)
    exact ⟨length, fun mem => elements _ mem⟩
  · rintro ⟨length, elements⟩
    exact .args length fun p mem => elements mem

/-- Functions are alike if they are the same function, one that may occur, with alike arguments
bound. -/
theorem alike_function_iff {signature signature' : Signature} :
    Alike L (.function signature vs) (.function signature' ws) ↔
      signature = signature' ∧ L.callable signature ∧ List.Forall₂ (Alike L) vs ws := by
  rw [List.forall₂_iff_zip]
  constructor
  · rintro (_ | _ | _ | ⟨callable, length, elements⟩)
    exact ⟨rfl, callable, length, fun mem => elements _ mem⟩
  · rintro ⟨rfl, callable, length, elements⟩
    exact .function callable length fun p mem => elements mem

namespace Alike

/-- The elements of a list are alike to those of one list only, if each of them is to one value
only. -/
theorem forall₂_unique {us : List Value} (same : ∀ p ∈ vs.zip ws, ∀ u, Alike L p.1 u → p.2 = u)
    (length : vs.length = ws.length) (elements : List.Forall₂ (Alike L) vs us) : ws = us := by
  induction elements generalizing ws with
  | nil => exact List.eq_nil_of_length_eq_zero length.symm
  | cons first _ ih =>
      match ws, length with
      | w :: ws, length =>
          obtain rfl : w = _ := same (_, w) (by simp) _ first
          have shorter : _ = ws.length := Nat.succ.inj length
          obtain rfl := ih (fun p mem => same p (List.mem_cons_of_mem _ mem)) shorter
          rfl

/-- A value is alike to one value only, as long as a body is alike to one body only.  Nothing else
in a value is left open. -/
theorem unique (right : ∀ {x y y'}, L.body x y → L.body x y' → y = y') (h : Alike L v w) :
    ∀ u, Alike L v u → w = u := by
  induction h with
  | bool b =>
      rintro _ (_ | _)
      rfl
  | str s =>
      rintro _ (_ | _)
      rfl
  | list length _ ih =>
      intro u other
      cases other with
      | list length' elements =>
          rw [forall₂_unique ih length (alike_list_iff.mp (.list length' elements))]
  | function _ length _ ih =>
      intro u other
      cases other with
      | function callable length' elements =>
          have bound := (alike_function_iff.mp (.function callable length' elements)).2.2
          rw [forall₂_unique ih length bound]
  | subExpr body =>
      intro u other
      cases other with
      | subExpr body' => rw [right body body']
  | args length _ ih =>
      intro u other
      cases other with
      | args length' elements =>
          rw [forall₂_unique ih length (alike_args_iff.mp (.args length' elements))]

end Alike

end Value

/-- The same bodies, compared the other way round. -/
def Likeness.flip (L : Likeness) : Likeness :=
  ⟨fun x y => L.body y x, L.callable⟩

/-- Likeness may be read from either side, with that of bodies turned around. -/
theorem Value.Alike.flip (h : Alike L v w) : Alike L.flip w v := by
  have swapped {vs ws : List Value} (ih : ∀ p ∈ vs.zip ws, Alike L.flip p.2 p.1) :
      ∀ p ∈ ws.zip vs, Alike L.flip p.1 p.2 := by
    intro p mem
    have mem' : p.swap ∈ vs.zip ws := by
      rw [← List.zip_swap]
      exact List.mem_map_of_mem mem
    exact ih p.swap mem'
  induction h with
  | bool b => exact .bool b
  | str s => exact .str s
  | list length _ ih => exact .list length.symm (swapped ih)
  | function callable length _ ih => exact .function callable length.symm (swapped ih)
  | subExpr body => exact .subExpr body
  | args length _ ih => exact .args length.symm (swapped ih)

/-- **Equality of values is respected.**  Bodies of operations compare values, sub-expressions
included, so this is what keeps them from telling two evaluations apart.  It is the reason for
asking that different bodies are alike to different ones. -/
theorem Value.Alike.eq_iff (injective : L.Injective) {v' w' : Value} (h : Alike L v w)
    (h' : Alike L v' w') : v = v' ↔ w = w' := by
  constructor
  · rintro rfl
    exact h.unique injective.right _ h'
  · rintro rfl
    exact h.flip.unique (fun first second => injective.left first second) _ h'.flip

/-- Data is alike to itself under any likeness, since it has no operand in it. -/
theorem Value.IsData.alike (h : v.IsData) : Alike L v v := by
  induction h with
  | bool b => exact .bool b
  | str s => exact .str s
  | list _ ih => exact alike_list_iff.mpr (List.forall₂_same.mpr ih)

/-- A name is alike to itself only, so it is looked up alike. -/
theorem Value.Alike.eq_str_iff (h : Alike L v w) (s : String) : v = .str s ↔ w = .str s := by
  cases h <;> simp

/-- The truth of a value does not depend on the bodies in it.  A condition therefore goes the same
way in both evaluations. -/
theorem Value.Alike.isTruthy_eq (h : Alike L v w) (host : Host) :
    v.isTruthy host = w.isTruthy host := by
  have empty {vs ws : List Value} (length : vs.length = ws.length) : vs.isEmpty = ws.isEmpty := by
    rw [Bool.eq_iff_iff, List.isEmpty_iff_length_eq_zero, List.isEmpty_iff_length_eq_zero, length]
  cases h with
  | list length _ => simp only [isTruthy, empty length]
  | args length _ => simp only [isTruthy, empty length]
  | _ => rfl

/-! ### Environments and arguments -/

/-- Environments stay alike when alike values are given the same name. -/
theorem Environment.Alike.insert {env env' : Environment} (h : Environment.Alike L env env')
    (name : String) (hv : Value.Alike L v w) :
    Environment.Alike L (env.insert name v) (env'.insert name w) := by
  intro other
  rw [Dictionary.get?_insert, Dictionary.get?_insert]
  split
  · exact .some hv
  · exact h other

theorem Environment.alike_of_data {env : Environment}
    (h : ∀ name v, env.get? name = some v → v.IsData) : Environment.Alike L env env := by
  intro name
  cases found : env.get? name with
  | none => exact .none
  | some v => exact .some (h name v found).alike

/-- Arguments that are alike are so under any weaker likeness of what waits. -/
theorem Arg.Alike.mono {A' : Requests} {a b : Arg} (h : Arg.Alike L A a b)
    (weaker : ∀ x y, A.waiting x y → A'.waiting x y) : Arg.Alike L A' a b := by
  cases h with
  | value hv => exact .value hv
  | deferred hx henv => exact .deferred (weaker _ _ hx) henv
  | block hx => exact .block (weaker _ _ hx)

/-- Alike arguments have alike values, or both are not evaluated, and then the errors show alike
operands. -/
theorem Arg.matches_toValue {a b : Arg} (h : Arg.Alike L A a b) :
    Matches (OperationError.Alike L A) (Value.Alike L) a.toValue b.toValue := by
  cases h with
  | value hv => exact hv
  | deferred hx _ => exact .unevaluated hx
  | block hx => exact .unevaluatedBlock hx

/-- So they have alike outcomes, if a deferred one is evaluated on demand. -/
theorem Arg.matches_outcome {a b : Arg} (h : Arg.Alike L A a b) :
    Matches (OperationError.Alike L A) (Outcome.Alike L A) a.outcome b.outcome := by
  cases h with
  | value hv => exact .value hv
  | deferred hx henv => exact .demand (.force ⟨.inl hx, henv⟩)
  | block hx => exact .unevaluatedBlock hx

/-! ### Callees -/

/-- The function that a name stands for is listed with its arity.  So what is said of all that are
listed can be used of a function that has been looked up. -/
theorem Directory.mem_of_resolve {directory : Directory} {name : String} {f : FunctionValue}
    (h : directory.resolve name = .ok f) :
    (f.signature.name, f.signature.arity) ∈ directory.arities := by
  unfold Directory.resolve at h
  generalize statedArity name = parts at h
  obtain ⟨base, stated?⟩ := parts
  dsimp only at h
  cases found : directory.arity? base with
  | none =>
      rw [found] at h
      cases h
  | some arity =>
      rw [found] at h
      cases stated? with
      | none =>
          cases h
          exact Registry.mem_of_arity? found
      | some stated =>
          dsimp only at h
          split at h
          · cases h
            exact Registry.mem_of_arity? found
          · cases h

/-- A callee is a function or a sub-expression, and one that is alike is of the same kind. -/
theorem Callee.Alike.cases {callee callee' : Callee} (h : Callee.Alike L callee callee') :
    (∃ f f', callee = .function f ∧ callee' = .function f' ∧ f.signature = f'.signature ∧
      L.callable f.signature ∧ List.Forall₂ (Value.Alike L) f.bound f'.bound) ∨
    ∃ s s', callee = .subExpr s ∧ callee' = .subExpr s' ∧ s.parameter = s'.parameter ∧
      L.body s.body s'.body := by
  match callee, callee', h with
  | .function f, .function f', h =>
      obtain ⟨same, callable, bound⟩ := Value.alike_function_iff.mp h
      exact .inl ⟨f, f', rfl, rfl, same, callable, bound⟩
  | .subExpr s, .subExpr s', h =>
      cases s
      cases s'
      cases h with
      | subExpr body => exact .inr ⟨_, _, rfl, rfl, rfl, body⟩

theorem Callee.Alike.missing_eq {callee callee' : Callee} (h : Callee.Alike L callee callee') :
    callee.missing = callee'.missing := by
  rcases h.cases with ⟨f, f', rfl, rfl, same, -, bound⟩ | ⟨s, s', rfl, rfl, -, -⟩
  · simp only [Callee.missing, FunctionValue.missing, same, bound.length_eq]
  · rfl

/-- Alike functions with another argument bound are alike, or both have all arguments already. -/
theorem FunctionValue.matches_bind {f f' : FunctionValue}
    (hf : Value.Alike L f.toValue f'.toValue) (hv : Value.Alike L v w) :
    Matches (OperationError.Alike L A) (fun g g' => Value.Alike L g.toValue g'.toValue)
      (f.bind v) (f'.bind w) := by
  obtain ⟨same, callable, bound⟩ := Value.alike_function_iff.mp hf
  have saturated : f.isSaturated = f'.isSaturated := by
    simp only [isSaturated, missing, same, bound.length_eq]
  simp only [FunctionValue.bind, ← saturated, ← same]
  split
  · exact .saturated _ _
  · exact Value.alike_function_iff.mpr ⟨rfl, callable, List.rel_append bound (.cons hv .nil)⟩

/-- To apply alike sub-expressions is to ask for alike bodies, in environments that are alike
again. -/
theorem SubExpression.matches_apply {s s' : SubExpression} {env env' : Environment}
    (named : s.parameter = s'.parameter) (body : L.body s.body s'.body)
    (henv : Environment.Alike L env env') (given : List.Forall₂ (Value.Alike L) vs ws) :
    Matches (OperationError.Alike L A) (Outcome.Alike L A) (s.apply env vs) (s'.apply env' ws) := by
  have count := given.length_eq
  unfold SubExpression.apply
  match vs, ws, given with
  | [v], [w], .cons hv .nil =>
      dsimp only
      rw [← named]
      exact .demand (.force ⟨.inr body, henv.insert _ hv⟩)
  | [], [], .nil =>
      dsimp only
      rw [← named]
      exact .argumentCount _ _ _
  | _ :: _ :: _, _ :: _ :: _, .cons _ (.cons _ _) =>
      dsimp only
      rw [← named, count]
      exact .argumentCount _ _ _

/-! ### Bodies -/

/-- Alike arguments have alike replies. -/
def Body.Uniform (L : Likeness) (A : Requests) (body : Body) : Prop :=
  ∀ (scope scope' : Scope) (args args' : List Arg), Scope.Alike L scope scope' →
    List.Forall₂ (Arg.Alike L A) args args' →
    Matches (OperationError.Alike L A) (Reply.Alike L A) (body.run scope args)
      (body.run scope' args')

namespace Registry

/-- The functions that may occur in values have uniform bodies. -/
def Uniform (registry : Registry) (L : Likeness) (A : Requests) : Prop :=
  ∀ signature d, L.callable signature → registry.find? signature = some d → d.body.Uniform L A

variable {registry : Registry} {scope scope' : Scope}

/-- A function runs the same body, on alike arguments: which body it is depends on its signature,
and that is the same in both. -/
theorem matches_target {f f' : FunctionValue} (uniform : registry.Uniform L A)
    (same : f.signature = f'.signature) (callable : L.callable f.signature)
    (bound : List.Forall₂ (Value.Alike L) f.bound f'.bound)
    (given : List.Forall₂ (Value.Alike L) vs ws) :
    Matches (OperationError.Alike L A) (fun next next' => next.1 = next'.1 ∧
      next.1.Uniform L A ∧ List.Forall₂ (Arg.Alike L A) next.2 next'.2)
      (registry.target f vs) (registry.target f' ws) := by
  have missing : f.missing = f'.missing := by
    simp only [FunctionValue.missing, same, bound.length_eq]
  unfold Registry.target
  rw [← missing, ← same, ← given.length_eq]
  split
  · exact .argumentCount _ _ _
  · cases found : registry.find? f.signature with
    | none =>
        exact .invalid (.cons (Value.alike_function_iff.mpr ⟨same, callable, bound⟩) .nil)
    | some d =>
        refine ⟨rfl, uniform _ d callable found, ?_⟩
        rw [List.forall₂_map_left_iff, List.forall₂_map_right_iff]
        exact (List.rel_append bound given).imp fun _ _ => .value

/-- **Uniform bodies have alike outcomes.**  The induction is that on the weight of the arguments,
by which calls come to an end; a body that hands over does so in both evaluations, to alike
callees and with alike arguments. -/
theorem call_alike (uniform : registry.Uniform L A) (hscope : Scope.Alike L scope scope')
    {body : Body} (hbody : body.Uniform L A) {args args' : List Arg}
    (hargs : List.Forall₂ (Arg.Alike L A) args args') :
    Matches (OperationError.Alike L A) (Outcome.Alike L A) (registry.call scope body args)
      (registry.call scope' body args') := by
  have replies := hbody scope scope' args args' hscope hargs
  rw [call_eq, call_eq]
  cases replied : body.run scope args with
  | error e =>
      obtain ⟨e', replied', same⟩ := replies.exists_error replied
      rw [replied']
      exact same
  | ok reply =>
      obtain ⟨reply', replied', same⟩ := replies.exists_ok replied
      rw [replied']
      cases same with
      | outcome same => exact same
      | apply callees given =>
          rcases callees.cases with
            ⟨f, f', rfl, rfl, same, callable, bound⟩ | ⟨s, s', rfl, rfl, named, sameBody⟩
          · have targets := matches_target uniform same callable bound given
            dsimp only
            cases hit : registry.target f _ with
            | error e =>
                obtain ⟨e', hit', same⟩ := targets.exists_error hit
                rw [hit']
                exact same
            | ok next =>
                obtain ⟨⟨body', next'⟩, hit', rfl, hnext, handed⟩ := targets.exists_ok hit
                rw [hit']
                -- The arguments are lighter on this side, which is enough for both.
                have _lighter := lighter_of_target replied hit
                exact call_alike uniform hscope hnext handed
          · exact SubExpression.matches_apply named sameBody hscope.env given
termination_by Arg.weightAll args

theorem apply_alike (uniform : registry.Uniform L A) (hscope : Scope.Alike L scope scope')
    {callee callee' : Callee} (callees : Callee.Alike L callee callee')
    (given : List.Forall₂ (Value.Alike L) vs ws) :
    Matches (OperationError.Alike L A) (Outcome.Alike L A) (registry.apply scope callee vs)
      (registry.apply scope' callee' ws) := by
  rcases callees.cases with
    ⟨f, f', rfl, rfl, same, callable, bound⟩ | ⟨s, s', rfl, rfl, named, sameBody⟩
  · have targets := matches_target uniform same callable bound given
    unfold Registry.apply
    dsimp only
    cases hit : registry.target f vs with
    | error e =>
        obtain ⟨e', hit', same⟩ := targets.exists_error hit
        rw [hit']
        exact same
    | ok next =>
        obtain ⟨⟨body', next'⟩, hit', rfl, hnext, handed⟩ := targets.exists_ok hit
        rw [hit']
        exact call_alike uniform hscope hnext handed
  · exact SubExpression.matches_apply named sameBody hscope.env given

end Registry

end RuleEngine
