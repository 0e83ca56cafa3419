import RuleEngine.Evaluate.Run

/-!
# The meaning of expressions

`Context.evaluate` runs a machine of frames, layers and slots.  This module says
without a machine what the value of an operand is, by recursion over the nodes
of the pool and over what bodies ask for.

* A literal is itself; a braced body has no value; deferral changes nothing for
  an operand that is evaluated on its own.
* A node first has its operands prepared, from left to right.  Those that are
  nodes are computed, all others are passed as they are.  The first operand that
  fails is the failure of the node, and those behind it are not looked at.
* The body of the operation then gives a value, fails, or makes a demand, whose
  result is the value of the node.
* To meet a demand is to evaluate the deferred operand in its own environment,
  to apply the callee to the elements one after another, or to list the keys.

## Main definitions

* `EvalCause` - why there is no value, without the place where that was found.
* `Traversal.combine` - what the result for one element contributes.
* `Evaluates`, `Computes`, `Prepares`, `Meets`, `Applies`, `Gathers` - the
  judgments, for an operand on its own, a node among the operands of another,
  all operands of a node, a demand, one element and all elements of a list.

## Main statements

* `computes_iff_of_call` - what a node comes to, if its arguments are known.

## Design notes

**Judgments, not functions.**  Sub-expressions may apply themselves, so there are
operands without any result.  These are the ones without a derivation.

**Steps are counted.**  Every judgment carries the number of steps that the
machine takes for it.  It is an output like the result, and nothing in the rules
depends on it.
-/

namespace RuleEngine

/-- Why there is no value. -/
inductive EvalCause
  /-- The operation of a node is not registered. -/
  | unregistered (signature : Signature)
  /-- The operation with this name failed. -/
  | operator (name : String) (cause : OperationError)
  /-- A braced body stands where a value is needed. -/
  | bareBlock
  /-- The evaluation is inconsistent. -/
  | internal (fault : InternalFault)
  deriving DecidableEq

/-- The cause of an error, which the exhaustion of the budget does not have. -/
def EvalError.cause? : EvalError → Option EvalCause
  | unregistered signature _ => some (.unregistered signature)
  | operator name cause _ => some (.operator name cause)
  | bareBlock => some .bareBlock
  | budgetExceeded _ => none
  | internal fault => some (.internal fault)

/-- What the result for the element `item` contributes to a traversal. -/
def Traversal.combine (host : Host) (how : Traversal) (item result : Value) :
    Except OperationError (List Value) :=
  match how, result with
  | map, result => .ok [result]
  | filter, result => .ok (if result.isTruthy host then [item] else [])
  | flatMap, .list results => .ok results
  | flatMap, other => .error (.invalid "flatMap function must return a list" [other])

/-- What a traversal goes on to hold of the element, once the result for it has been
combined.  Only a filter takes the element. -/
def Traversal.park : Traversal → Value → Option Value
  | filter, _ => none
  | _, item => some item

namespace Semantics

variable (context : Context)

/-- What bodies may look at in `env`. -/
abbrev scopeIn (env : Environment) : Scope :=
  context.registry.scope context.host env

mutual

/-- Evaluated on its own in `env`, the operand comes to the result in `n` steps. -/
inductive Evaluates : (env : Environment) → Operand → (n : Nat) → Except EvalCause Value → Prop
  | literal {env text} : Evaluates env (.literal text) 1 (.ok (.str text))
  | block {env x} : Evaluates env (.block x) 0 (.error .bareBlock)
  | skip {env x n r} : Evaluates env x n r → Evaluates env (.skip x) n r
  | value {env i n v} : Computes env i n (.ok v) → Evaluates env (.node i) (n + 1) (.ok v)
  | failure {env i n e} : Computes env i n (.error e) → Evaluates env (.node i) n (.error e)

/-- The operation of the node with index `i` comes to the result in `n` steps. -/
inductive Computes : (env : Environment) → (i n : Nat) → Except EvalCause Value → Prop
  | dangling {env i} : context.pool.get? i = none →
      Computes env i 0 (.error (.internal .danglingNode))
  | operand {env i node n e} : context.pool.get? i = some node →
      Prepares env node.operands n (.error e) → Computes env i n (.error e)
  | unregistered {env i node n args} : context.pool.get? i = some node →
      Prepares env node.operands n (.ok args) →
      context.registry.find? node.signature = none →
      Computes env i (n + 1) (.error (.unregistered node.signature))
  | body {env i node n args d cause} : context.pool.get? i = some node →
      Prepares env node.operands n (.ok args) →
      context.registry.find? node.signature = some d →
      context.registry.call (scopeIn context env) d.body args = .error cause →
      Computes env i (n + 1) (.error (.operator node.name cause))
  | value {env i node n args d v} : context.pool.get? i = some node →
      Prepares env node.operands n (.ok args) →
      context.registry.find? node.signature = some d →
      context.registry.call (scopeIn context env) d.body args = .ok (.value v) →
      Computes env i (n + 1) (.ok v)
  | demand {env i node n args d demand m r} : context.pool.get? i = some node →
      Prepares env node.operands n (.ok args) →
      context.registry.find? node.signature = some d →
      context.registry.call (scopeIn context env) d.body args = .ok (.demand demand) →
      Meets env demand m r → Computes env i (n + 1 + m) r

/-- The operands of a node become its arguments in `n` steps. -/
inductive Prepares : (env : Environment) → List Operand → (n : Nat) →
    Except EvalCause (List Arg) → Prop
  | nil {env} : Prepares env [] 0 (.ok [])
  | literal {env text rest n r} : Prepares env rest n r →
      Prepares env (.literal text :: rest) n (r.map (.value (.str text) :: ·))
  | block {env x rest n r} : Prepares env rest n r →
      Prepares env (.block x :: rest) n (r.map (.block x :: ·))
  | skip {env x rest n r} : Prepares env rest n r →
      Prepares env (.skip x :: rest) n (r.map (.deferred ⟨x, env⟩ :: ·))
  | node {env i rest m v n r} : Computes env i m (.ok v) → Prepares env rest n r →
      Prepares env (.node i :: rest) (m + 2 + n) (r.map (.value v :: ·))
  | failure {env i rest m e} : Computes env i m (.error e) →
      Prepares env (.node i :: rest) (m + 1) (.error e)

/-- The demand of a body that runs in `env` is met in `n` steps. -/
inductive Meets : (env : Environment) → Demand → (n : Nat) → Except EvalCause Value → Prop
  | force {env suspension n r} : Evaluates suspension.env suspension.operand n r →
      Meets env (.force suspension) n r
  | traverse {env items callee how n r} : Gathers env callee how items n r →
      Meets env (.traverse items callee how) n (r.map .list)
  | keys {env} : Meets env .keys (context.host.keys.length + 1)
      (.ok (.list (context.host.keys.map .str)))

/-- Applied to one element, the callee comes to the result in `n` steps. -/
inductive Applies : (env : Environment) → Callee → Traversal → Value → (n : Nat) →
    Except EvalCause Value → Prop
  | failure {env callee how item cause} :
      context.registry.apply (scopeIn context env) callee [item] = .error cause →
      Applies env callee how item 1 (.error (.operator how.render cause))
  | value {env callee how item v} :
      context.registry.apply (scopeIn context env) callee [item] = .ok (.value v) →
      Applies env callee how item 1 (.ok v)
  | demand {env callee how item demand n r} :
      context.registry.apply (scopeIn context env) callee [item] = .ok (.demand demand) →
      Meets env demand n r → Applies env callee how item (n + 1) r

/-- The contributions of all elements are gathered in `n` steps. -/
inductive Gathers : (env : Environment) → Callee → Traversal → List Value → (n : Nat) →
    Except EvalCause (List Value) → Prop
  | nil {env callee how} : Gathers env callee how [] 1 (.ok [])
  | failure {env callee how item items n e} : Applies env callee how item n (.error e) →
      Gathers env callee how (item :: items) n (.error e)
  | refused {env callee how item items n v cause} : Applies env callee how item n (.ok v) →
      how.combine context.host item v = .error cause →
      Gathers env callee how (item :: items) n (.error (.operator how.render cause))
  | cons {env callee how item items n v vs m r} : Applies env callee how item n (.ok v) →
      how.combine context.host item v = .ok vs → Gathers env callee how items m r →
      Gathers env callee how (item :: items) (n + m) (r.map (vs ++ ·))

end

/-! ### Inversion -/

section Inversion

variable {context} {env : Environment} {i n k : Nat} {node : Node} {d : Definition}
variable {args : List Arg} {r : Except EvalCause Value}

/-- A literal becomes an argument in no step, and nothing else can become of it. -/
theorem prepares_single_literal_iff {text : String} {r : Except EvalCause (List Arg)} :
    Prepares context env [.literal text] n r ↔ n = 0 ∧ r = .ok [.value (.str text)] := by
  constructor
  · intro h
    cases h with
    | literal rest =>
        cases rest
        exact ⟨rfl, rfl⟩
  · rintro ⟨rfl, rfl⟩
    exact .literal .nil

/-- A node of which the arguments are known does what its body replies to them: it has the value
of the reply after one step, or what meets the demand after one step more than that takes. -/
theorem computes_iff_of_call (context : Context) (found : context.pool.get? i = some node)
    (prepared : ∀ n r, Prepares context env node.operands n r ↔ n = k ∧ r = .ok args)
    (registered : context.registry.find? node.signature = some d) {outcome : Outcome}
    (call : context.registry.call (scopeIn context env) d.body args = .ok outcome) :
    Computes context env i n r ↔
      match outcome with
      | .value v => n = k + 1 ∧ r = .ok v
      | .demand demand => ∃ m, n = k + 1 + m ∧ Meets context env demand m r := by
  constructor
  · intro h
    -- Any derivation takes the known node, arguments, definition and outcome, so only the last two
    -- rules are left.
    cases h with
    | dangling missing => cases found.symm.trans missing
    | operand found' failed =>
        obtain rfl := Option.some.inj (found.symm.trans found')
        cases ((prepared _ _).mp failed).2
    | unregistered found' _ missing =>
        obtain rfl := Option.some.inj (found.symm.trans found')
        cases registered.symm.trans missing
    | body found' arguments registered' failed =>
        obtain rfl := Option.some.inj (found.symm.trans found')
        obtain rfl := Option.some.inj (registered.symm.trans registered')
        obtain rfl := Except.ok.inj ((prepared _ _).mp arguments).2
        cases call.symm.trans failed
    | value found' arguments registered' called =>
        obtain rfl := Option.some.inj (found.symm.trans found')
        obtain rfl := Option.some.inj (registered.symm.trans registered')
        obtain ⟨rfl, same⟩ := (prepared _ _).mp arguments
        obtain rfl := Except.ok.inj same
        obtain rfl := Except.ok.inj (call.symm.trans called)
        exact ⟨rfl, rfl⟩
    | demand found' arguments registered' called met =>
        obtain rfl := Option.some.inj (found.symm.trans found')
        obtain rfl := Option.some.inj (registered.symm.trans registered')
        obtain ⟨rfl, same⟩ := (prepared _ _).mp arguments
        obtain rfl := Except.ok.inj same
        obtain rfl := Except.ok.inj (call.symm.trans called)
        exact ⟨_, rfl, met⟩
  · intro h
    have arguments := (prepared k (.ok args)).mpr ⟨rfl, rfl⟩
    cases outcome with
    | value v =>
        obtain ⟨rfl, rfl⟩ := h
        exact .value found arguments registered call
    | demand demand =>
        obtain ⟨m, rfl, met⟩ := h
        exact .demand found arguments registered call met

/-- The steps that an operand takes beyond those of its node: one more, if it comes to
a value. -/
def answering (r : Except EvalCause Value) : Nat :=
  match r with
  | .ok _ => 1
  | .error _ => 0

/-- An operand that is a node takes the steps of the node, and one more that answers with its
value.  If the node fails there is nothing to answer. -/
theorem evaluates_node_iff :
    Evaluates context env (.node i) n r ↔
      ∃ m, n = m + answering r ∧ Computes context env i m r := by
  constructor
  · intro h
    cases h with
    | value computed => exact ⟨_, rfl, computed⟩
    | failure failed => exact ⟨_, rfl, failed⟩
  · rintro ⟨m, rfl, h⟩
    cases r with
    | ok v => exact .value h
    | error cause => exact .failure h

end Inversion

end Semantics

end RuleEngine
