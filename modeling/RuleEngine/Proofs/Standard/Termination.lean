import RuleEngine.Proofs.Evaluate.Adequacy
import RuleEngine.Proofs.Standard.Linear
import RuleEngine.Proofs.Standard.Uniform

/-!
# Expressions without sub-expressions come to an end

Only `=>` makes sub-expressions.  Without it the functions that occur in values are
registered ones, which reply with a value at once; so whatever is evaluated later
than its operands is one of them that was left to wait.  An operand that waits is
asked for by the node that it belongs to, and by this node only once.

Every node thus costs the steps of the operands that it needs and a few of its own.
By `exists_visit_of_parseWith` no node is visited twice, hence there are at most four
steps for each node of the pool.  Lists take further steps, whose number depends on the data.

## Main definitions

* `Likeness.plain` - no sub-expression is alike to any value.
* `Requests.among` - an operand waits if it is one of these.
* `Settles` - operands come to results, in a number of steps that their visit bounds.

## Main statements

* `Plain.call_cases` - what a standard body asks for, apart from that of `=>`.
* `Settles.computes` - a node comes to a result if its operands do.
* `settles_of_unfolds` - all operands that unfold to nodes without `=>` do.
* `evaluate_linear` - for whatever is parsed under the standard library.
-/

namespace RuleEngine

open Schedule (Scheduler)

/-- The operations that go through lists. -/
def Standard.looping : List String := ["map", "filter", "flatMap", "$"]

/-- No bodies are alike, and functions neither make sub-expressions nor loop. -/
def Likeness.plain : Likeness :=
  ⟨fun _ _ => False, fun signature => signature.name ∉ "=>" :: Standard.looping⟩

/-- An operand waits if it is one of these. -/
def Requests.among (waiting : Operand → Prop) (loops : Prop) : Requests :=
  ⟨fun x y => x = y ∧ waiting x, loops⟩

/-- There is no sub-expression in the value. -/
def Value.Plain (v : Value) : Prop :=
  v.Alike .plain v

/-- There is no sub-expression in the values of names. -/
def Environment.Plain (env : Environment) : Prop :=
  Environment.Alike .plain env env

/-- No body is alike to any, so there is nothing to be told apart. -/
theorem Likeness.plain_injective : Likeness.plain.Injective :=
  ⟨nofun, nofun⟩

namespace Standard

variable {A : Requests} {host : Host} {env : Environment}

/-- The standard bodies are uniform, since `=>` and the operators on lists may not occur in
values. -/
theorem uniform_plain : Registry.standard.Uniform .plain A := by
  intro signature d callable found
  refine Registry.find?_uniform Likeness.plain_injective found (fun named => ?_) fun named => ?_
  · exact absurd (named ▸ List.mem_cons_self) callable
  · exact absurd (List.mem_cons_of_mem _ named) callable

/-- What a body may look at is plain, if the environment is and the host has data only.  No
registered function has the name of an operator that is excluded. -/
theorem plain_scope (data : ∀ key v, host.get? key = some v → v.IsData) (henv : env.Plain) :
    Scope.Alike .plain (Registry.standard.scope host env) (Registry.standard.scope host env) := by
  have callable : ∀ entry ∈ Registry.standard.directory.arities.entries,
      entry.1 ∉ "=>" :: looping := by decide +kernel
  exact Registry.alike_scope data callable henv

/-- **A function replies with a value at once**, or it fails.  It has nothing to ask for: an
operand that waits would have to be among its arguments, and these are values. -/
theorem apply_plain_cases (data : ∀ key v, host.get? key = some v → v.IsData) (henv : env.Plain)
    {callee : Callee} (hcallee : Callee.Alike .plain callee callee) {item : Value}
    (hitem : item.Plain) :
    (∃ e, Registry.standard.apply (Registry.standard.scope host env) callee [item] = .error e) ∨
      ∃ v, Registry.standard.apply (Registry.standard.scope host env) callee [item] =
        .ok (.value v) ∧ v.Plain := by
  have alike := Registry.apply_alike (uniform_plain (A := .among (fun _ => False) False))
    (plain_scope data henv) hcallee (.cons hitem .nil)
  cases applied : Registry.standard.apply (Registry.standard.scope host env) callee [item] with
  | error e => exact .inl ⟨e, rfl⟩
  | ok outcome =>
      rw [applied] at alike
      cases alike with
      | value hv => exact .inr ⟨_, rfl, hv⟩
      | demand asked =>
          cases asked with
          | force asked => rcases asked.1 with ⟨-, never⟩ | never <;> cases never
          | traverse never _ _ => cases never
          | keys never => cases never

/-- A body other than that of `=>` asks for one of the operands that wait, or for a list
to be gone through if it may. -/
theorem call_plain {node : Node} {d : Definition} {args : List Arg} {outcome : Outcome}
    (data : ∀ key v, host.get? key = some v → v.IsData) (henv : env.Plain)
    (found : Registry.standard.find? node.signature = some d) (named : node.name ≠ "=>")
    (loops : node.name ∈ looping → A.loops)
    (hargs : List.Forall₂ (Arg.Alike .plain A) args args)
    (called : Registry.standard.call (Registry.standard.scope host env) d.body args =
      .ok outcome) : Outcome.Alike .plain A outcome outcome := by
  have body := Registry.find?_uniform (A := A) Likeness.plain_injective found
    (fun same => absurd same named) loops
  have alike := Registry.call_alike uniform_plain (plain_scope data henv) body hargs
  rwa [called] at alike

end Standard

/-! ### Lists -/

namespace Semantics

variable {host : Host} {pool : Pool} {env : Environment} {loops : Prop}

/-- What is kept of an element and its result is plain. -/
theorem plain_of_combine {how : Traversal} {item result : Value} {vs : List Value}
    (hitem : item.Plain) (hresult : result.Plain)
    (h : how.combine host item result = .ok vs) : ∀ v ∈ vs, v.Plain := by
  intro v mem
  match how with
  | .map =>
      cases h
      obtain rfl := List.mem_singleton.mp mem
      exact hresult
  | .filter =>
      cases h
      split at mem
      · obtain rfl := List.mem_singleton.mp mem
        exact hitem
      · cases mem
  | .flatMap =>
      match result with
      | .list results =>
          cases h
          exact List.forall₂_same.mp (Value.alike_list_iff.mp hresult) v mem
      | .bool _ | .str _ | .function _ _ | .subExpr _ _ | .args _ => cases h

variable (pool) in
/-- **Going through a list comes to an end**, as the list does and as each call of a function
replies at once.  The number of steps depends on the list. -/
theorem exists_gathers (data : ∀ key v, host.get? key = some v → v.IsData) (henv : env.Plain)
    {callee : Callee} (hcallee : Callee.Alike .plain callee callee) (how : Traversal)
    (items : List Value) (hitems : ∀ v ∈ items, v.Plain) :
    ∃ n r, Gathers ⟨host, .standard, pool⟩ env callee how items n r ∧
      ∀ vs, r = .ok vs → ∀ v ∈ vs, v.Plain := by
  induction items with
  | nil => exact ⟨1, .ok [], .nil, by simp⟩
  | cons item items ih =>
      have hitem := hitems item List.mem_cons_self
      rcases Standard.apply_plain_cases data henv hcallee hitem with
        ⟨e, applied⟩ | ⟨v, applied, hv⟩
      · exact ⟨1, _, .failure (.failure applied), nofun⟩
      · cases combined : how.combine host item v with
        | error e => exact ⟨1, _, .refused (.value applied) combined, nofun⟩
        | ok vs =>
            obtain ⟨m, r, rest, plain⟩ := ih fun v mem => hitems v (List.mem_cons_of_mem _ mem)
            refine ⟨1 + m, _, .cons (.value applied) combined rest, ?_⟩
            intro ws same w mem
            cases r with
            | error e => cases same
            | ok us =>
                cases same
                rcases List.mem_append.mp mem with mem | mem
                · exact plain_of_combine hitem hv combined w mem
                · exact plain us rfl w mem

/-! ### Operands -/

variable (host pool loops) in
/-- The operand comes to a result, in four steps for each visit and one more. -/
def Finishes (x : Operand) (visits : Nat) : Prop :=
  ∀ env : Environment, env.Plain → ∃ n r, Evaluates ⟨host, .standard, pool⟩ env x n r ∧
    (¬ loops → n ≤ 4 * visits + 1) ∧ ∀ v, r = .ok v → v.Plain

variable (host pool loops) in
/-- The node comes to a result, and two more steps make no more than four for each
visit. -/
def Concludes (i visits : Nat) : Prop :=
  ∀ env : Environment, env.Plain → ∃ n r, Computes ⟨host, .standard, pool⟩ env i n r ∧
    (¬ loops → n + 2 ≤ 4 * visits) ∧ ∀ v, r = .ok v → v.Plain

/-- An operand that a node keeps for later. -/
def Waits (xs : List Operand) (x : Operand) : Prop :=
  .skip x ∈ xs ∨ .block x ∈ xs

variable (host pool loops) in
/-- Operands that are visited so many times, of which so many are at once, come to
arguments, and those that wait come to results later.  Only one of them is asked
for, so its steps and those of the arguments are bounded together. -/
structure Settles (xs : List Operand) (pending visits : Nat) : Prop where
  /-- What is visited at once is visited. -/
  le : pending ≤ visits
  /-- The arguments. -/
  prepares : ∀ env : Environment, env.Plain →
    ∃ n r, Prepares ⟨host, .standard, pool⟩ env xs n r ∧ (¬ loops → n ≤ 4 * pending) ∧
      ∀ args, r = .ok args →
        List.Forall₂ (Arg.Alike .plain (.among (Waits xs) loops)) args args
  /-- The operands that wait. -/
  waits : ∀ x, Waits xs x → Finishes host pool loops x (visits - pending)
  /-- All operands. -/
  finishes : ∀ x ∈ xs, Finishes host pool loops x visits

/-- An operand that finishes within so many visits does so within more. -/
theorem Finishes.mono {x : Operand} {visits visits' : Nat}
    (h : Finishes host pool loops x visits) (le : visits ≤ visits') :
    Finishes host pool loops x visits' := by
  intro env henv
  obtain ⟨n, r, evaluates, bound, plain⟩ := h env henv
  refine ⟨n, r, evaluates, fun straight => ?_, plain⟩
  have := bound straight
  omega

/-- An operand that is a node finishes with it: two steps are left for entering it and for handing
over its value. -/
theorem Concludes.finishes {i visits : Nat} (h : Concludes host pool loops i visits) :
    Finishes host pool loops (.node i) visits := by
  intro env henv
  obtain ⟨n, r, computes, bound, plain⟩ := h env henv
  cases r with
  | ok v =>
      refine ⟨n + 1, _, .value computes, fun straight => ?_, plain⟩
      have := bound straight
      omega
  | error e =>
      refine ⟨n, _, .failure computes, fun straight => ?_, plain⟩
      have := bound straight
      omega

namespace Settles

variable {xs : List Operand} {x : Operand} {i pending visits k : Nat}

theorem nil : Settles host pool loops [] 0 0 where
  le := Nat.le_refl 0
  prepares _ _ := by
    refine ⟨0, _, .nil, fun _ => Nat.le_refl 0, fun args same => ?_⟩
    cases same
    exact .nil
  waits x waits := by rcases waits with mem | mem <;> cases mem
  finishes := nofun

/-- The operands that wait among some wait among more operands. -/
theorem weaken {args : List Arg} (h : List.Forall₂ (Arg.Alike .plain (.among (Waits xs) loops))
    args args) : List.Forall₂ (Arg.Alike .plain (.among (Waits (x :: xs)) loops)) args args := by
  refine h.imp fun a b alike => alike.mono ?_
  rintro y _ ⟨rfl, waits⟩
  exact ⟨rfl, waits.imp (List.mem_cons_of_mem _) (List.mem_cons_of_mem _)⟩

theorem literal (h : Settles host pool loops xs pending visits) (text : String) :
    Settles host pool loops (.literal text :: xs) pending visits where
  le := h.le
  prepares env henv := by
    obtain ⟨n, r, prepared, bound, plain⟩ := h.prepares env henv
    refine ⟨n, _, .literal prepared, bound, fun args same => ?_⟩
    match r, plain, same with
    | .ok args, plain, rfl => exact .cons (.value (.str text)) (weaken (plain args rfl))
  waits x waits := h.waits x (by simpa [Waits] using waits)
  finishes y mem := by
    rcases List.mem_cons.mp mem with rfl | mem
    · refine fun env _ => ⟨1, _, .literal, fun _ => Nat.le_add_left 1 _, fun v same => ?_⟩
      cases same
      exact .str text
    · exact h.finishes y mem

/-- An operand that waits is not visited now, but it may be asked for later. -/
theorem skip (h : Settles host pool loops xs pending visits)
    (inner : Finishes host pool loops x k) :
    Settles host pool loops (.skip x :: xs) pending (k + visits) where
  le := by have := h.le; omega
  prepares env henv := by
    obtain ⟨n, r, prepared, bound, plain⟩ := h.prepares env henv
    refine ⟨n, _, .skip prepared, bound, fun args same => ?_⟩
    match r, plain, same with
    | .ok args, plain, rfl =>
        have first : Waits (.skip x :: xs) x := .inl List.mem_cons_self
        exact .cons (.deferred ⟨rfl, first⟩ henv) (weaken (plain args rfl))
  waits y waits := by
    have le := h.le
    rcases waits with mem | mem
    · rcases List.mem_cons.mp mem with same | mem
      · cases same
        exact inner.mono (by omega)
      · exact (h.waits y (.inl mem)).mono (by omega)
    · exact (h.waits y (.inr (by simpa using mem))).mono (by omega)
  finishes y mem := by
    rcases List.mem_cons.mp mem with rfl | mem
    · intro env henv
      obtain ⟨n, r, evaluates, bound, plain⟩ := inner.mono (Nat.le_add_right k visits) env henv
      exact ⟨n, r, .skip evaluates, bound, plain⟩
    · exact (h.finishes y mem).mono (Nat.le_add_left visits k)

/-- Nor is a braced one, which is asked for by `=>` only. -/
theorem block (h : Settles host pool loops xs pending visits)
    (inner : Finishes host pool loops x k) :
    Settles host pool loops (.block x :: xs) pending (k + visits) where
  le := by have := h.le; omega
  prepares env henv := by
    obtain ⟨n, r, prepared, bound, plain⟩ := h.prepares env henv
    refine ⟨n, _, .block prepared, bound, fun args same => ?_⟩
    match r, plain, same with
    | .ok args, plain, rfl =>
        have first : Waits (.block x :: xs) x := .inr List.mem_cons_self
        exact .cons (.block ⟨rfl, first⟩) (weaken (plain args rfl))
  waits y waits := by
    have le := h.le
    rcases waits with mem | mem
    · exact (h.waits y (.inl (by simpa using mem))).mono (by omega)
    · rcases List.mem_cons.mp mem with same | mem
      · cases same
        exact inner.mono (by omega)
      · exact (h.waits y (.inr mem)).mono (by omega)
  finishes y mem := by
    rcases List.mem_cons.mp mem with rfl | mem
    · exact fun env _ => ⟨0, _, .block, fun _ => Nat.zero_le _, nofun⟩
    · exact (h.finishes y mem).mono (Nat.le_add_left visits k)

theorem node (h : Settles host pool loops xs pending visits)
    (first : Concludes host pool loops i k) :
    Settles host pool loops (.node i :: xs) (k + pending) (k + visits) where
  le := by have := h.le; omega
  prepares env henv := by
    obtain ⟨m, r, computes, bound, plain⟩ := first env henv
    cases r with
    | error e =>
        refine ⟨m + 1, _, .failure computes, fun straight => ?_, nofun⟩
        have := bound straight
        omega
    | ok v =>
        obtain ⟨n, r, prepared, boundRest, plainRest⟩ := h.prepares env henv
        refine ⟨m + 2 + n, _, .node computes prepared, fun straight => ?_, fun args same => ?_⟩
        · have := bound straight
          have := boundRest straight
          omega
        · match r, plainRest, same with
          | .ok args, plainRest, rfl =>
              exact .cons (.value (plain v rfl)) (weaken (plainRest args rfl))
  waits y waits := by
    have le := h.le
    have later : Waits xs y := by simpa [Waits] using waits
    exact (h.waits y later).mono (by omega)
  finishes y mem := by
    rcases List.mem_cons.mp mem with rfl | mem
    · exact first.finishes.mono (Nat.le_add_right k visits)
    · exact (h.finishes y mem).mono (Nat.le_add_left visits k)

/-- **A node comes to a result if its operands do.**  Of the operands that wait it asks for one at
most, so no visit is counted twice. -/
theorem computes {node : Node} (data : ∀ key v, host.get? key = some v → v.IsData)
    (found : pool.get? i = some node) (named : node.name ≠ "=>")
    (looping : node.name ∈ Standard.looping → loops)
    (h : Settles host pool loops node.operands pending visits) :
    Concludes host pool loops i (visits + 1) := by
  intro env henv
  have le := h.le
  obtain ⟨n, r, prepared, bound, plain⟩ := h.prepares env henv
  have short : ¬ loops → n ≤ 4 * visits := fun straight => by have := bound straight; omega
  cases r with
  | error e =>
      refine ⟨n, _, .operand found prepared, fun straight => ?_, nofun⟩
      have := short straight
      omega
  | ok args =>
      have next : ¬ loops → n + 1 + 2 ≤ 4 * (visits + 1) :=
        fun straight => by have := short straight; omega
      cases registered : Registry.standard.find? node.signature with
      | none => exact ⟨n + 1, _, .unregistered found prepared registered, next, nofun⟩
      | some d =>
          cases called : Registry.standard.call (Registry.standard.scope host env) d.body args with
          | error e => exact ⟨n + 1, _, .body found prepared registered called, next, nofun⟩
          | ok outcome =>
              -- Up to here the steps were those of the operands that are not to wait.
              have asked := Standard.call_plain data henv registered named looping
                (plain args rfl) called
              cases asked with
              | value hv =>
                  refine ⟨n + 1, _, .value found prepared registered called, next, ?_⟩
                  intro v same
                  cases same
                  exact hv
              | demand asked =>
                  cases asked with
                  | force alike =>
                      rcases alike.1 with ⟨-, waits⟩ | never
                      · -- The visits of the operand that is asked for are not among those before.
                        obtain ⟨m, r, evaluates, boundLater, plain⟩ := h.waits _ waits _ alike.2
                        refine ⟨n + 1 + m, r, .demand found prepared registered called
                          (.force evaluates), fun straight => ?_, plain⟩
                        have := bound straight
                        have := boundLater straight
                        omega
                      · cases never
                  | @traverse vs _ _ _ _ loop items callee =>
                      have plainItems : ∀ v ∈ vs, v.Plain := fun v mem =>
                        List.forall₂_same.mp items v mem
                      obtain ⟨m, r, gathers, plain⟩ :=
                        exists_gathers pool data henv callee _ _ plainItems
                      refine ⟨n + 1 + m, r.map .list, .demand found prepared registered called
                        (.traverse gathers), fun straight => absurd loop straight, ?_⟩
                      intro v same
                      match r, plain, same with
                      | .ok vs, plain, rfl =>
                          exact Value.alike_list_iff.mpr (List.forall₂_same.mpr (plain vs rfl))
                  | keys loop =>
                      refine ⟨_, _, .demand found prepared registered called .keys,
                        fun straight => absurd loop straight, ?_⟩
                      intro v same
                      cases same
                      refine Value.alike_list_iff.mpr (List.forall₂_same.mpr fun v mem => ?_)
                      obtain ⟨key, -, rfl⟩ := List.mem_map.mp mem
                      exact .str key

end Settles

variable (loops) in
/-- **Operands without `=>` come to results.**  The number of visits is that of the
nodes on the way. -/
theorem settles_of_unfolds {xs : List Operand} {ts : List Tree} {visited : List Nat}
    (data : ∀ key v, host.get? key = some v → v.IsData)
    (named : ∀ i node, pool.get? i = some node → node.name ≠ "=>")
    (looping : ∀ i node, pool.get? i = some node → node.name ∈ Standard.looping → loops)
    (h : pool.Unfolds xs ts visited) :
    ∃ pending, Settles host pool loops xs pending visited.length := by
  induction h with
  | nil => exact ⟨0, .nil⟩
  | literal _ ih =>
      obtain ⟨pending, rest⟩ := ih
      exact ⟨pending, rest.literal _⟩
  | node found _ _ ihInner ih =>
      obtain ⟨_, operands⟩ := ihInner
      obtain ⟨pending, rest⟩ := ih
      have concludes := operands.computes data found (named _ _ found) (looping _ _ found)
      rw [List.cons_append, List.length_cons, List.length_append, Nat.add_right_comm]
      exact ⟨_, rest.node concludes⟩
  | block _ _ ihInner ih =>
      obtain ⟨_, inner⟩ := ihInner
      obtain ⟨pending, rest⟩ := ih
      rw [List.length_append]
      exact ⟨pending, rest.block (inner.finishes _ (List.mem_singleton_self _))⟩
  | skip _ _ ihInner ih =>
      obtain ⟨_, inner⟩ := ihInner
      obtain ⟨pending, rest⟩ := ih
      rw [List.length_append]
      exact ⟨pending, rest.skip (inner.finishes _ (List.mem_singleton_self _))⟩

end Semantics

namespace Evaluate

open Semantics

/-- **Without `=>` and without loops, four steps for each node and one more are
enough.**  What is parsed under the standard library and has no `=>` among its nodes
comes to a result for any data of truth values, literals and lists.  If it has none
of the operators that go through lists either, then the number of steps is bounded by
the size of the pool. -/
theorem evaluate_linear {tokens : List Token} {parser : Scheduler} {parsed : Parse.Parsed}
    (parses : Registry.standard.parseWith parser tokens = .ok parsed)
    (named : ∀ i node, parsed.pool.get? i = some node → node.name ≠ "=>")
    (host : Host) (hhost : ∀ key v, host.get? key = some v → v.IsData)
    (env : Environment) (henv : ∀ name v, env.get? name = some v → v.IsData) :
    ((∀ i node, parsed.pool.get? i = some node →
        node.name ∉ ["map", "filter", "flatMap", "$"]) →
      ∀ scheduler : Scheduler,
        (Context.evaluate ⟨host, .standard, parsed.pool⟩ scheduler env parsed.root).2.steps ≤
          4 * parsed.pool.size + 1 ∧
        (4 * parsed.pool.size + 1 ≤ scheduler.budget → ∀ budget,
          (Context.evaluate ⟨host, .standard, parsed.pool⟩ scheduler env parsed.root).1 ≠
            .error (.budgetExceeded budget))) ∧
    ∃ enough, ∀ scheduler : Scheduler, enough ≤ scheduler.budget → ∀ budget,
      (Context.evaluate ⟨host, .standard, parsed.pool⟩ scheduler env parsed.root).1 ≠
        .error (.budgetExceeded budget) := by
  obtain ⟨t, visited, visit, -⟩ := Parse.exists_visit_of_parseWith parses
  have unfolds := visit.unfolds
  have few := unfolds.length_le_size visit.once
  -- What has a derivation does not use up a budget that allows its steps.
  have within {n : Nat} {r : Except EvalCause Value}
      (h : Evaluates ⟨host, .standard, parsed.pool⟩ env parsed.root n r) (scheduler : Scheduler)
      (enough : n ≤ scheduler.budget) (budget : Nat) :
      (Context.evaluate ⟨host, .standard, parsed.pool⟩ scheduler env parsed.root).1 ≠
        .error (.budgetExceeded budget) := by
    have seen := (Context.evaluate_of_evaluates h enough).1
    intro exceeded
    rw [exceeded] at seen
    cases seen
  constructor
  · intro straight scheduler
    -- The bound is linear if no list is gone through, and otherwise there is some bound.
    obtain ⟨_, settles⟩ := settles_of_unfolds False hhost named
      (fun i node found mem => straight i node found mem) unfolds
    obtain ⟨n, r, evaluates, bound, -⟩ := settles.finishes _ (List.mem_singleton_self _) env
      (Environment.alike_of_data henv)
    have bound := bound id
    refine ⟨?_, fun enough => within evaluates scheduler (by omega)⟩
    rcases Nat.lt_or_ge scheduler.budget n with short | enough
    · rw [(Context.evaluate_exceeds evaluates short).2]
      omega
    · rw [(Context.evaluate_of_evaluates evaluates enough).2]
      omega
  · obtain ⟨_, settles⟩ := settles_of_unfolds True hhost named
      (fun _ _ _ _ => trivial) unfolds
    obtain ⟨n, r, evaluates, -⟩ := settles.finishes _ (List.mem_singleton_self _) env
      (Environment.alike_of_data henv)
    exact ⟨n, fun scheduler enough => within evaluates scheduler enough⟩

/-- The tokens of `!'a' && 'b'` are parsed to two nodes, so nine steps are enough. -/
theorem evaluate_linear_negation_and :
    Registry.standard.parseWith .standard
        [.operator "!" .prefix1, .literal "a", .operator "&&" .infix2, .literal "b"] =
      .ok ⟨.node 1, ⟨#[⟨"!", [.literal "a"]⟩, ⟨"&&", [.node 0, .skip (.literal "b")]⟩]⟩⟩ ∧
    ∀ scheduler : Scheduler,
      (Context.evaluate ⟨Record.toHost .empty, .standard,
        ⟨#[⟨"!", [.literal "a"]⟩, ⟨"&&", [.node 0, .skip (.literal "b")]⟩]⟩⟩ scheduler .empty
          (.node 1)).2.steps ≤ 9 := by
  have run := (Parse.parseWith_eq_ok_iff .standard .standard _ (by decide)).mpr
    ⟨.infix2 (.single (.prefix1 "!" (.literal "a"))) "&&" (.literal "b"), rfl, rfl⟩
  have named : ∀ node ∈ [Node.mk "!" [.literal "a"], ⟨"&&", [.node 0, .skip (.literal "b")]⟩],
      node.name ≠ "=>" ∧ node.name ∉ ["map", "filter", "flatMap", "$"] := by decide
  have mem {i : Nat} {node : Node}
      (found : Pool.get? ⟨#[⟨"!", [.literal "a"]⟩, ⟨"&&", [.node 0, .skip (.literal "b")]⟩]⟩ i =
        some node) : node ∈ [Node.mk "!" [.literal "a"], ⟨"&&", [.node 0, .skip (.literal "b")]⟩] :=
    Array.mem_toList_iff.mpr (Array.mem_of_getElem? found)
  refine ⟨run, fun scheduler => ?_⟩
  have linear := evaluate_linear run (fun i node found => (named node (mem found)).1)
    (Record.toHost .empty) (by rintro key v ⟨⟩) .empty (by rintro name v ⟨⟩)
  exact (linear.1 (fun i node found => (named node (mem found)).2) scheduler).1

end Evaluate

end RuleEngine
