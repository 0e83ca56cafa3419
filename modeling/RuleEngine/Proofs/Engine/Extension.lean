import RuleEngine.Proofs.Evaluate.Adequacy
import RuleEngine.Proofs.Parse.Reachable
import RuleEngine.Proofs.Registry.Extension
import RuleEngine.Proofs.Schedule.Lockstep

/-!
# Additions to the standard library change nothing

An engine that knows more operators and functions than the standard one compiles
the same texts to the same expressions, and these have the same values.

Both runs are compared turn by turn.  The parser only looks up operators that
were read, and all of these are defined in both registries.  The evaluation may
find in the larger registry what it does not find in the smaller one, so the two
may differ; but then the smaller one fails at that turn, and a run that comes to
a value has no such turn.

For texts there is a condition on delimiters.  A larger registry may have an operator
whose name begins with the name of an old one, and would read it where the old one is
followed by the rest of the new name.  Where a delimiter follows each operator, the name
is over, and both registries read the same.  Functions have no part in reading at all:
they are looked up when they are applied, under their names, and a directory that has
more of them resolves the old names alike.

That a body is insensitive to additions is a property of the body, stability, and is
shown once for each body of the library.  A registration that brings a body of its own
is free to do as it likes: where the smaller registry comes to a value, that body is
never run.

## Main definitions

* `Configuration.Known` - all operators that wait or are to come are registered.

## Main statements

* `Registry.Extends.parseWith` - parsing is the same, errors included.
* `Registry.Extends.evaluate` - so is every evaluation that comes to a value.
* `Standard.stable_library` - the standard bodies are stable.
* `extension_conservative` - the standard library and any additions to it.
-/

namespace RuleEngine

/-! ### Parsing -/

namespace Parse

open Schedule (Lockstep)

variable {registry larger : Registry} {c c' : Configuration}

/-- All operators on the stack and among the tokens that are left belong to the
registry. -/
structure Configuration.Known (registry : Registry) (c : Configuration) : Prop where
  /-- Operators to come. -/
  remaining : ∀ name fixity, Token.operator name fixity ∈ c.remaining →
    (name, fixity) ∈ registry.operators
  /-- Operators that wait. -/
  stack : ∀ name fixity, Symbol.operator name fixity ∈ c.stack →
    (name, fixity) ∈ registry.operators

namespace Configuration

/-- What is reduced is an operator of the stack, with as many operands as it takes.  So a
reduction looks nothing up that the stack does not mention. -/
theorem exists_operator_of_reduction? {stack : List Symbol} {r : Reduction}
    (found : reduction? stack = some r) :
    ∃ fixity, Symbol.operator r.name fixity ∈ stack ∧ r.operands.length = fixity.arity := by
  unfold reduction? at found
  split at found
  · cases found
    exact ⟨.prefix1, by simp, rfl⟩
  · cases found
    exact ⟨.infix2, by simp, rfl⟩
  · cases found
    exact ⟨.prefix3, by simp, rfl⟩
  · cases found

/-- A shift that succeeds takes one token off, and leaves the rest of them for later. -/
theorem remaining_of_shift {token : Token} {rest : List Token}
    (h : c.shift token rest = .proceed c') : c'.remaining = rest := by
  unfold shift at h
  repeat' split at h
  all_goals cases h
  all_goals rfl

/-- An operator waits after a shift if it did before or has just been taken.  Whatever a shift
puts on the stack besides is no operator. -/
theorem operator_of_mem_shift {token : Token} {rest : List Token} {name : String}
    {fixity : Fixity} (h : c.shift token rest = .proceed c')
    (mem : Symbol.operator name fixity ∈ c'.stack) :
    Symbol.operator name fixity ∈ c.stack ∨ token = .operator name fixity := by
  unfold shift at h
  repeat' split at h
  all_goals cases h
  all_goals simp_all [eq_comm, or_comm]

/-- The operators stay known: a step moves them from the remaining tokens to the stack, and takes
them off again, but never introduces one.  This is the invariant of the comparison. -/
theorem Known.step (h : c.Known registry) (hs : c.step larger = .proceed c') :
    c'.Known registry := by
  rcases step_eq_proceed hs with ⟨r, found, reduced⟩ | ⟨token, rest, left, shifted⟩
  · obtain ⟨node, -, rfl⟩ := exists_node_of_reduce reduced
    refine ⟨h.remaining, fun name fixity mem => h.stack name fixity ?_⟩
    rcases List.mem_cons.mp mem with same | waiting
    · cases same
    · exact mem_of_mem_below found waiting
  · constructor
    · intro name fixity mem
      rw [remaining_of_shift shifted] at mem
      refine h.remaining name fixity ?_
      rw [left]
      exact List.mem_cons_of_mem token mem
    · intro name fixity mem
      rcases operator_of_mem_shift shifted mem with waiting | taken
      · exact h.stack name fixity waiting
      · refine h.remaining name fixity ?_
        rw [left, taken]
        exact List.mem_cons_self

/-- Known operators are reduced in the same way, with the same errors.  Both registries have the
same entry for such an operator, and nothing else of them is consulted. -/
theorem Known.step_eq (h : c.Known registry) (more : registry.Extends larger) :
    c.step registry = c.step larger := by
  unfold Configuration.step
  cases found : reduction? c.stack with
  | none => rfl
  | some r =>
      obtain ⟨fixity, waiting, complete⟩ := exists_operator_of_reduction? found
      obtain ⟨d, defined⟩ := more.defined _ (h.stack r.name fixity waiting)
      have signature : r.plain.signature = ⟨r.name, fixity.arity⟩ := by rw [← complete]; rfl
      simp only [reduce, signature, defined, more.find? _ _ defined]

end Configuration

/-- The parsers of both registries go in lockstep, as long as all operators are known to the
smaller one.  There is no condition on the outcome: errors are the same, too. -/
theorem lockstep (more : registry.Extends larger) :
    Lockstep (fun (_ : Unit) => Configuration.step registry)
      (fun _ => Configuration.step larger) none
      (fun tasks => ∃ c, tasks = alone c ∧ c.Known registry) where
  agree := by
    rintro _ ⟨c, rfl, known⟩
    simp only [Schedule.turn, Schedule.Task.new, known.step_eq more]
  keeps := fun tasks next =>
    turn_keeps (fun _ _ known hs => Configuration.Known.step known hs) tasks next

end Parse

/-- **Parsing is the same**, whatever the result, if all operators among the tokens belong to the
smaller registry.  The budget and the size of batches play no part in it. -/
theorem Registry.Extends.parseWith {registry larger : Registry} (more : registry.Extends larger)
    (s : Schedule.Scheduler) {tokens : List Token}
    (readable : ∀ token ∈ tokens, token.Readable registry) :
    registry.parseWith s tokens = larger.parseWith s tokens := by
  have known : (Parse.Configuration.start tokens).Known registry :=
    ⟨fun name fixity mem => readable _ mem, nofun⟩
  unfold Registry.parseWith
  rw [(Parse.lockstep more).runAlone s ⟨_, rfl, known⟩]

/-! ### Evaluation -/

namespace Evaluate

open Schedule (Lockstep)
open Semantics (Ends)

variable {registry larger : Registry} {host : Host} {pool : Pool}

section Steps

variable (more : registry.Extends larger) (stable : registry.Stable)

include more stable

/-- An operation that does not fail under the smaller registry is run alike under the larger one:
its body comes to the same value, or demands the same of the frame. -/
theorem OperandFrame.run_of_extends {frame : OperandFrame} {signature : Signature}
    {args : List Arg}
    (fine : ∀ e, OperandFrame.run ⟨host, registry, pool⟩ frame signature args ≠ .fail e) :
    OperandFrame.run ⟨host, registry, pool⟩ frame signature args =
      OperandFrame.run ⟨host, larger, pool⟩ frame signature args := by
  unfold OperandFrame.run at fine ⊢
  dsimp only at fine ⊢
  cases found : registry.find? signature with
  | none =>
      rw [found] at fine
      exact absurd rfl (fine _)
  | some d =>
      rw [found] at fine
      rw [more.find? signature d found]
      dsimp only at fine ⊢
      cases called : registry.call (registry.scope host frame.env) d.body args with
      | error cause =>
          rw [called] at fine
          exact absurd rfl (fine _)
      | ok outcome =>
          rw [more.call stable (stable.of_find? found) args outcome called]
          cases outcome with
          | value v => rfl
          | demand demand => cases demand <;> rfl

/-- A frame that works off a list takes the same step, unless the smaller registry fails at it.
Only the call of its callee looks at the registry. -/
theorem TraversalFrame.step_of_extends {frame : TraversalFrame}
    (fine : ∀ e, frame.step ⟨host, registry, pool⟩ ≠ .fail e) :
    frame.step ⟨host, registry, pool⟩ = frame.step ⟨host, larger, pool⟩ := by
  unfold TraversalFrame.step at fine ⊢
  cases items : frame.items with
  | nil => rfl
  | cons item items' =>
      simp only [items] at fine
      dsimp only
      cases applied : registry.apply (registry.scope host frame.env) frame.callee [item] with
      | error cause =>
          rw [applied] at fine
          exact absurd rfl (fine _)
      | ok outcome =>
          rw [more.apply stable frame.callee [item] outcome applied]
          cases outcome with
          | value v => rfl
          | demand demand => cases demand <;> rfl

/-- A step that does not fail is the same, of whichever kind the frame is.  A failing step may
differ, since the larger registry may know the function that the smaller one misses. -/
theorem Frame.step_of_extends {frame : Frame}
    (fine : ∀ e, frame.step ⟨host, registry, pool⟩ ≠ .fail e) :
    frame.step ⟨host, registry, pool⟩ = frame.step ⟨host, larger, pool⟩ := by
  cases frame with
  | keys keys listed => cases keys <;> rfl
  | traversal frame => exact TraversalFrame.step_of_extends more stable fine
  | operand frame =>
      obtain ⟨env, stack⟩ := frame
      rw [Frame.step_operand] at fine
      simp only [Frame.step_operand]
      cases stack with
      | nil => rfl
      | cons layer below =>
          cases layer with
          | value v => rcases below with _ | ⟨_ | _, _⟩ <;> rfl
          | operation signature slots =>
              rw [OperandFrame.step_operation] at fine
              rw [OperandFrame.step_operation, OperandFrame.step_operation]
              cases arguments : Slot.arguments slots with
              | error index => rfl
              | ok args =>
                  rw [arguments] at fine
                  exact OperandFrame.run_of_extends more stable fine

/-- So is one of any routine.  A frame of another kind is a fault under both registries, so there
is nothing to compare. -/
theorem program_of_registry_extends (routine : Routine) {frame : Frame}
    (fine : ∀ e, program ⟨host, registry, pool⟩ routine frame ≠ .fail e) :
    program ⟨host, registry, pool⟩ routine frame = program ⟨host, larger, pool⟩ routine frame := by
  rw [program_eq] at fine
  rw [program_eq, program_eq]
  split
  · rename_i own
    rw [if_pos own] at fine
    exact Frame.step_of_extends more stable fine
  · rfl

/-- As long as the run comes to a value, none of its steps fails: a step that failed would have
ended the run with an error, and the end of a run is unique.  So the two evaluations go in
lockstep. -/
theorem lockstep : Lockstep (program ⟨host, registry, pool⟩)
    (program ⟨host, larger, pool⟩) (some Frame.receive)
    (fun tasks => ∃ n v, Ends ⟨host, registry, pool⟩ n tasks (.ok v)) where
  agree := by
    rintro tasks ⟨n, v, ends⟩
    cases tasks with
    | nil => rfl
    | cons task outer =>
        have fine : ∀ e, program ⟨host, registry, pool⟩ task.routine task.state ≠ .fail e := by
          intro e failed
          have raised : Ends ⟨host, registry, pool⟩ 1 (task :: outer) (.error (.raised e)) :=
            .last (by simp only [Schedule.turn, failed])
          cases (ends.unique raised).2
        simp only [Schedule.turn, program_of_registry_extends more stable task.routine fine]
  keeps := by
    rintro tasks next ⟨n, v, ends⟩ going
    obtain ⟨k, -, rest⟩ := ends.after (.one going)
    exact ⟨k, v, rest⟩

end Steps

end Evaluate

/-- **An evaluation that comes to a value is the same**, with its counters.  The converse is
false, and is not claimed: with more functions, more evaluations come to a value. -/
theorem Registry.Extends.evaluate {registry larger : Registry} (more : registry.Extends larger)
    (stable : registry.Stable) {host : Host} {pool : Pool} {s : Schedule.Scheduler}
    {env : Environment} {root : Operand} {v : Value} {stats : Schedule.Stats}
    (h : Context.evaluate ⟨host, registry, pool⟩ s env root = (.ok v, stats)) :
    Context.evaluate ⟨host, larger, pool⟩ s env root = (.ok v, stats) := by
  cases started : Evaluate.Frame.start pool env root with
  | error e =>
      rw [Context.evaluate_of_start_eq_error s started] at h
      cases h
  | ok frame =>
      have ended : ∃ n v, Semantics.Ends ⟨host, registry, pool⟩ n
          [Semantics.task frame none] (.ok v) := by
        let context : Context := ⟨host, registry, pool⟩
        rcases context.evaluate_of_start_eq_ok s started with
          ⟨n, depth, result, -, ends, same⟩ | ⟨last, depth, -, same⟩
        · rw [same] at h
          cases result with
          | ok w => exact ⟨n, w, ends⟩
          | error stop => cases h
        · rw [same] at h
          cases h
      rw [← h]
      unfold Context.evaluate
      simp only [started]
      rw [Semantics.new_operand_eq_task started, (Evaluate.lockstep more stable).runStack s ended]

/-! ### The standard library -/

/-- What is registered has a stable body, if it has one. -/
def Registration.Stable (r : Registration) : Prop :=
  ∀ d, r.definition? = some d → d.body.Stable

namespace Standard

/-- A body that does not look at the directory is stable.  Most bodies of the library are of this
kind, and their stability holds by definition. -/
theorem stable_of_const {body : Body} (const : ∀ host env (directory larger : Directory) args,
    body.run ⟨host, env, directory⟩ args = body.run ⟨host, env, larger⟩ args) : body.Stable := by
  intro host env directory larger args _
  rw [const host env directory larger args]
  exact .refl _

/-- A callee is the same if names stand for the same functions.  A callee that is no name is found
without the directory. -/
theorem carries_callee (host : Host) (env : Environment) {directory larger : Directory}
    (more : ∀ name, Carries (directory.resolve name) (larger.resolve name)) (v : Value)
    (op : String) : Carries (Scope.callee ⟨host, env, directory⟩ v op)
      (Scope.callee ⟨host, env, larger⟩ v op) := by
  cases v with
  | str name => exact (more name).map
  | _ => exact .refl _

/-- Binding an argument looks at the directory for the callee only, and keeps what it finds. -/
theorem stable_binding : binding.Stable := by
  intro host env directory larger args more
  refine Carries.map (Carries.bind (.refl (pair args)) ?_)
  rintro ⟨f, arg⟩
  exact (carries_callee host env more f "bind").bind fun _ => .refl _

/-- So does applying one, and what the callee then comes to is the same by the lemma above. -/
theorem stable_application : application.Stable := by
  intro host env directory larger args more
  unfold application
  dsimp only
  cases pair args with
  | error e => exact .error
  | ok p =>
      have same := carries_callee host env more p.1 "apply"
      dsimp only
      cases found : Scope.callee ⟨host, env, directory⟩ p.1 "apply" with
      | error e => exact .error
      | ok callee =>
          rw [same callee found]
          exact .refl _

theorem stable_joinedCall : joinedCall.Stable := by
  intro host env directory larger args more
  unfold joinedCall
  dsimp only
  cases pair args with
  | error e => exact .error
  | ok p =>
      have same := carries_callee host env more p.1 "callWith"
      dsimp only
      cases found : Scope.callee ⟨host, env, directory⟩ p.1 "callWith" with
      | error e => exact .error
      | ok callee =>
          rw [same callee found]
          exact .refl _

theorem stable_prefixCall : prefixCall.Stable := by
  intro host env directory larger args more
  unfold prefixCall
  dsimp only
  cases single args with
  | error e => exact .error
  | ok all =>
      dsimp only
      cases joined all with
      | nil => exact .error
      | cons f rest =>
          have same := carries_callee host env more f "call"
          dsimp only
          cases found : Scope.callee ⟨host, env, directory⟩ f "call" with
          | error e => exact .error
          | ok callee =>
              rw [same callee found]
              exact .refl _

theorem stable_traversal (how : Traversal) : (traversal how).Stable := by
  intro host env directory larger args more
  refine Carries.map (Carries.bind (.refl (pair args)) ?_)
  rintro ⟨items, f⟩
  cases items with
  | list items => exact (carries_callee host env more f how.render).bind fun _ => .refl _
  | _ => exact .error

/-- An operator is stable if its body is.  Neither its name nor its desugaring is looked at when
it is run. -/
theorem stable_operator {name : String} {fixity : Fixity} {body : Body}
    {desugar? : Option Desugaring} (h : body.Stable) :
    (Registration.operator name fixity (some body) desugar?).Stable := by
  intro d hd
  cases hd
  exact h

theorem stable_function {name : String} {arity : Nat} {body : Body} (h : body.Stable) :
    (Registration.function name arity body).Stable := by
  intro d hd
  cases hd
  exact h

/-- An operator whose body does not look at the directory. -/
theorem stable_plain {name : String} {fixity : Fixity} {body : Body}
    {desugar? : Option Desugaring} (const : ∀ host env (directory larger : Directory) args,
      body.run ⟨host, env, directory⟩ args = body.run ⟨host, env, larger⟩ args) :
    (Registration.operator name fixity (some body) desugar?).Stable :=
  stable_operator (stable_of_const const)

/-- **Everything in the standard library is stable.**  Only those bodies look at the directory
that apply a callee, or bind an argument to one; and a name that the smaller directory resolves is
resolved alike by the larger one. -/
theorem stable_library : ∀ r ∈ library, r.Stable := by
  have truths : ∀ r ∈ truthOperations, r.Stable := by
    simp only [truthOperations, List.forall_mem_cons]
    refine ⟨?_, ?_, ?_, ?_, ?_, ?_, ?_, ?_, stable_function ?_, nofun⟩
    case refine_9 => exact stable_of_const fun _ _ _ _ _ => rfl
    all_goals exact stable_plain fun _ _ _ _ _ => rfl
  have conditionals : ∀ r ∈ conditionalOperations, r.Stable := by
    simp only [conditionalOperations, List.forall_mem_cons]
    refine ⟨?_, ?_, ?_, ?_, ?_, ?_, ?_, nofun⟩
    all_goals exact stable_plain fun _ _ _ _ _ => rfl
  have lookups : ∀ r ∈ lookupOperations, r.Stable := by
    simp only [lookupOperations, List.forall_mem_cons]
    refine ⟨?_, ?_, ?_, ?_, nofun⟩
    all_goals exact stable_plain fun _ _ _ _ _ => rfl
  have sequences : ∀ r ∈ sequenceFunctions, r.Stable := by
    simp only [sequenceFunctions, List.forall_mem_cons]
    refine ⟨stable_function ?_, stable_function ?_, stable_function ?_, nofun⟩
    all_goals exact stable_of_const fun _ _ _ _ _ => rfl
  have applications : ∀ r ∈ applicationOperations, r.Stable := by
    simp only [applicationOperations, List.forall_mem_cons]
    exact ⟨stable_plain fun _ _ _ _ _ => rfl, stable_operator stable_binding,
      stable_operator stable_application, stable_plain fun _ _ _ _ _ => rfl,
      stable_operator stable_joinedCall, stable_operator stable_prefixCall, nofun⟩
  have traversals : ∀ r ∈ traversalOperations, r.Stable := by
    simp only [traversalOperations, List.forall_mem_cons]
    exact ⟨stable_operator (stable_traversal .map), stable_operator (stable_traversal .filter),
      stable_operator (stable_traversal .flatMap), stable_plain fun _ _ _ _ _ => rfl, nofun⟩
  simp only [library, List.forall_mem_append]
  exact ⟨⟨⟨⟨⟨truths, conditionals⟩, lookups⟩, sequences⟩, applications⟩, traversals⟩

end Standard

/-- The standard registry is stable, since each definition in it comes from an entry of the
library. -/
theorem Registry.stable_standard : Registry.standard.Stable := by
  intro d mem
  obtain ⟨r, hr, hd⟩ := exists_registration Standard.build_library mem
  exact Standard.stable_library r hr d hd

/-- **Additions to the standard library change nothing.**  A text that the standard
registry reads, and in which a delimiter follows each operator, is read by any
registry with more operators and functions as the same tokens; these are parsed
to the same nodes or with the same error; and an evaluation that comes to a value
comes to the same one, in as many steps and as deep in batches. -/
theorem extension_conservative {all : List Registration} {extended : Registry}
    (more : Standard.library ⊆ all) (built : Registry.build all = .ok extended) :
    (∀ text tokens, Registry.standard.tokenize text = .ok tokens →
      Registry.standard.Delimited text.toList →
      extended.tokenize text = .ok tokens ∧
      ∀ s, extended.parseWith s tokens = Registry.standard.parseWith s tokens) ∧
    ∀ host pool s env root v stats,
      Context.evaluate ⟨host, .standard, pool⟩ s env root = (.ok v, stats) →
      Context.evaluate ⟨host, extended, pool⟩ s env root = (.ok v, stats) := by
  have larger := Registry.extends_of_build Standard.build_library more built
  constructor
  · intro text tokens read delimited
    refine ⟨larger.tokenize read delimited, fun s => Eq.symm ?_⟩
    exact larger.parseWith s (Registry.readable_of_tokenize read)
  · intro host pool s env root v stats evaluated
    exact larger.evaluate Registry.stable_standard evaluated

/-! A new operator `!v` is spelled like two old ones, and a function takes the name
of an old operator. -/

/-- The standard library with an operator and a function more. -/
def Standard.enlarged : List Registration :=
  .operator "!v" .prefix1 (some truth) none :: .function "!" 2 equality :: library

/-- The two additions break none of the rules: no operator has the spelling of the new one, and
functions may have the names of operators. -/
theorem Standard.firstFault?_enlarged : Registration.firstFault? enlarged = none := by
  decide +kernel

/-- Its registry. -/
def Registry.enlarged : Registry :=
  assemble Standard.enlarged Standard.firstFault?_enlarged

/-- The text `!'a'` is read as two tokens, and a quote follows the operator.  So the new operator,
which needs a letter behind the sign, is no competitor here. -/
theorem tokenize_sign : Registry.standard.tokenize "!'a'" =
    .ok [.operator "!" .prefix1, .literal "a"] ∧ Registry.standard.Delimited "!'a'".toList := by
  have spelled : "!'a'".toList = ['!', '\'', 'a', '\''] := by decide
  have sign : Registry.standard.vocabulary.token? ['!', '\'', 'a', '\''] =
      some (.operator "!" .prefix1, ['\'', 'a', '\'']) := by decide +kernel
  have quoted : Registry.standard.vocabulary.token? ['\'', 'a', '\''] =
      some (.literal "a", []) := by decide +kernel
  rw [Registry.tokenize, spelled]
  constructor
  · rw [Vocabulary.tokens_of_token? rfl sign, Vocabulary.tokens_of_token? rfl quoted,
      Vocabulary.tokens_nil]
    rfl
  · intro name fixity after occurs
    cases occurs with
    | here solid found =>
        obtain ⟨rfl, rfl⟩ := List.cons.inj solid
        cases sign.symm.trans found
        rfl
    | later solid found occurs =>
        obtain ⟨rfl, rfl⟩ := List.cons.inj solid
        cases sign.symm.trans found
        -- Behind the operator there is the literal, and nothing behind that.
        cases occurs with
        | here solid found =>
            obtain ⟨rfl, rfl⟩ := List.cons.inj solid
            cases quoted.symm.trans found
        | later solid found occurs =>
            obtain ⟨rfl, rfl⟩ := List.cons.inj solid
            cases quoted.symm.trans found
            cases occurs with
            | here solid _ => cases solid
            | later solid _ _ => cases solid

/-- Under these, `!'a'` is still a negation. -/
theorem extension_negation :
    Registry.enlarged.tokenize "!'a'" = .ok [.operator "!" .prefix1, .literal "a"] ∧
    Registry.enlarged.parse [.operator "!" .prefix1, .literal "a"] 4 =
      .ok ⟨.node 0, ⟨#[⟨"!", [.literal "a"]⟩]⟩⟩ ∧
    ∃ depth, Context.evaluate
      ⟨Record.toHost .empty, .enlarged, ⟨#[⟨"!", [.literal "a"]⟩]⟩⟩ .standard .empty
        (.node 0) = (.ok (.bool true), ⟨2, depth⟩) := by
  have more : Standard.library ⊆ Standard.enlarged := by
    intro r hr
    exact List.mem_cons_of_mem _ (List.mem_cons_of_mem _ hr)
  have built := Registry.build_of_firstFault? Standard.firstFault?_enlarged
  obtain ⟨texts, values⟩ := extension_conservative more built
  obtain ⟨tokens, parses⟩ := texts _ _ tokenize_sign.1 tokenize_sign.2
  refine ⟨tokens, (parses _).trans ?_, ?_⟩
  · let phrase : Parse.Phrase .expression := .single (.prefix1 "!" (.literal "a"))
    exact Parse.parseWith_of_phrase .standard (.new Schedule.Scheduler.defaultBatch 4) phrase
      (by decide)
  · let context : Context := ⟨Record.toHost .empty, .standard, ⟨#[⟨"!", [.literal "a"]⟩]⟩⟩
    have call : Registry.standard.call (Semantics.scopeIn context .empty) Standard.negation
        [.value (.str "a")] = .ok (.value (.bool true)) := by
      rw [Registry.call_eq]
      rfl
    have derived : Semantics.Evaluates context .empty (.node 0) 2 (.ok (.bool true)) :=
      .value (.value rfl (.literal .nil) rfl call)
    have within : 2 ≤ Schedule.Scheduler.standard.budget := by decide
    obtain ⟨seen, steps⟩ := Context.evaluate_of_evaluates derived within
    generalize run : context.evaluate .standard .empty (.node 0) = outcome at seen steps
    obtain ⟨result, ⟨count, depth⟩⟩ := outcome
    obtain rfl := seen?_eq_ok_iff.mp seen
    obtain rfl : count = 2 := steps
    exact ⟨depth, values _ _ _ _ _ _ _ run⟩

end RuleEngine
