import RuleEngine.Proofs.Engine.Limits
import RuleEngine.Proofs.Standard.Agreement

/-!
# Sub-expressions that leave their expression

A sub-expression is a value, so an expression may have one as its result, a host may
keep it, and another expression may find it there.  The value has the body as an
operand, and if this is a node, then only its index; the nodes themselves stay with
the expression that made the value.  Here it is said what becomes of such a body.

## Main definitions

* `applyText` - the text that applies a sub-expression of the host to a literal.
* `Expression.withRoot` - the expression that begins somewhere else in its pool.

## Main statements

* `evaluates_application_iff` - the text comes to what the body comes to over the
  nodes of this very text.
* `apply_stored` - so it depends on the index of the body only: a body that is a
  literal is what it was, and any other one becomes the stored value itself, a run
  without end, or a dangling reference.
* `stored_body_lost` - a body that was evaluated to a literal is replaced by another
  one.
-/

namespace RuleEngine

/-- The expression that begins at another operand of its pool. -/
def Expression.withRoot (e : Expression) (root : Operand) : Expression :=
  { e with root }

namespace Stored

open Parse (Phrase)
open Registry (Writes)
open Semantics

/-- The text that applies the sub-expression that the host has at `key` to a
literal. -/
def applyText (key arg : String) : String :=
  "*'" ++ key ++ "' apply '" ++ arg ++ "'"

/-- The nodes of this text. -/
def applyPool (key arg : String) : Pool :=
  ⟨#[⟨"*", [.literal key]⟩, ⟨"apply", [.node 0, .literal arg]⟩]⟩

/-! ### Compilation -/

/-- The derivation of the text. -/
def applyPhrase (key arg : String) : Phrase .expression :=
  .infix2 (.single (.prefix1 "*" (.literal key))) "apply" (.literal arg)

/-- The text of the function that gives its argument back. -/
def identityText (name : String) : String :=
  "'" ++ name ++ "' => \x7bv '" ++ name ++ "'\x7d"

/-- The nodes of this text. -/
def identityPool (name : String) : Pool :=
  ⟨#[⟨"v", [.literal name]⟩, ⟨"=>", [.literal name, .block (.node 0)]⟩]⟩

/-- The derivation of the text. -/
def identityPhrase (name : String) : Phrase .expression :=
  .infix2 (.single (.literal name)) "=>" (.brace (.single (.prefix1 "v" (.literal name))))

theorem operators_mem : ("*", Fixity.prefix1) ∈ Registry.standard.operators ∧
    ("apply", Fixity.infix2) ∈ Registry.standard.operators ∧
    ("=>", Fixity.infix2) ∈ Registry.standard.operators ∧
    ("v", Fixity.prefix1) ∈ Registry.standard.operators := by
  decide +kernel

/-- The text that applies a sub-expression of the host is read as the tokens of its derivation. -/
theorem writes_applyText {key arg : String} (hk : '\'' ∉ key.toList) (ha : '\'' ∉ arg.toList) :
    Registry.standard.Writes (applyPhrase key arg).tokens (applyText key arg) := by
  have applied := Logic.writes_operator_space operators_mem.2.1 (Registry.writes_literal ha)
  have inner := (Registry.writes_literal hk).append (Registry.writes_space.append applied)
  have whole := Writes.operator Registry.regular_standard operators_mem.1 inner
    (by simp [Vocabulary.startsDelimited, Vocabulary.isDelimiter])
  have text : applyText key arg =
      "*" ++ ("'" ++ key ++ "'" ++ (" " ++ ("apply" ++ (" " ++ ("'" ++ arg ++ "'"))))) := by
    rw [applyText, show "*'" = "*" ++ "'" from rfl,
      show "' apply '" = "'" ++ (" " ++ ("apply" ++ (" " ++ "'"))) from rfl]
    simp only [String.append_assoc]
  rw [text]
  simpa [applyPhrase, Phrase.tokens] using whole

/-- It is compiled to two nodes: one that looks the sub-expression up, and one that applies it. -/
theorem compile_applyText {key arg : String} (hk : '\'' ∉ key.toList) (ha : '\'' ∉ arg.toList) :
    Engine.standard.compile (applyText key arg) =
      .ok ⟨.node 1, applyPool key arg, .standard, {}⟩ :=
  Engine.compile_eq_ok_iff.mpr ⟨applyPhrase key arg, (writes_applyText hk ha).tokenize,
    show 7 ≤ 100000 by decide, rfl, rfl⟩

/-- The text of the identity function is read as the tokens of its derivation. -/
theorem writes_identityText {name : String} (hn : '\'' ∉ name.toList) :
    Registry.standard.Writes (identityPhrase name).tokens (identityText name) := by
  have opened : Registry.standard.Writes [.bracket .openBrace] "\x7b" :=
    fun _ _ => Vocabulary.tokens_bracket .openBrace
  have closed : Registry.standard.Writes [.bracket .closeBrace] "\x7d" :=
    fun _ _ => Vocabulary.tokens_bracket .closeBrace
  have literal : Registry.standard.Writes [.literal name] ("'" ++ name ++ "'") :=
    Registry.writes_literal hn
  have looked := Logic.writes_operator_space operators_mem.2.2.2 (literal.append closed)
  have made := Logic.writes_operator_space operators_mem.2.2.1 (opened.append looked)
  have whole := literal.append (Registry.writes_space.append made)
  have text : identityText name = "'" ++ name ++ "'" ++ (" " ++ ("=>" ++ (" " ++
      ("\x7b" ++ ("v" ++ (" " ++ ("'" ++ name ++ "'" ++ "\x7d"))))))) := by
    rw [identityText, show "' => \x7bv '" =
        "'" ++ (" " ++ ("=>" ++ (" " ++ ("\x7b" ++ ("v" ++ (" " ++ "'")))))) from rfl,
      show "'\x7d" = "'" ++ "\x7d" from rfl]
    simp only [String.append_assoc]
  rw [text]
  simpa [identityPhrase, Phrase.tokens] using whole

/-- It is compiled to two nodes: the body, which looks the parameter up, and the function. -/
theorem compile_identityText {name : String} (hn : '\'' ∉ name.toList) :
    Engine.standard.compile (identityText name) =
      .ok ⟨.node 1, identityPool name, .standard, {}⟩ :=
  Engine.compile_eq_ok_iff.mpr ⟨identityPhrase name, (writes_identityText hn).tokenize,
    show 9 ≤ 100000 by decide, rfl, rfl⟩

/-! ### Calls -/

section Calls

variable (registry : Registry) {scope : Scope}

/-- A body that hands over to a sub-expression asks for its body, with the argument in the
environment of the call. -/
theorem call_of_run_eq_subExpr {body : Body} {args : List Arg} {s : SubExpression}
    {given : List Value} (h : body.run scope args = .ok (.apply (.subExpr s) given)) :
    registry.call scope body args = s.apply scope.env given := by
  rw [Registry.call_eq, h]

/-- To look up a key of the host is to get the value that is kept there, whatever its nodes were. -/
theorem call_dereference {key : String} {v : Value} (found : scope.host.get? key = some v) :
    registry.call scope Standard.dereference [.value (.str key)] = .ok (.value v) := by
  refine Logic.call_direct ?_
  have read : Standard.single [.value (.str key)] = .ok (.str key) := rfl
  simp only [read, bind, Except.bind, Standard.literal, found]
  rfl

theorem call_variableValue {name : String} {v : Value} (bound : scope.env.get? name = some v) :
    registry.call scope Standard.variableValue [.value (.str name)] = .ok (.value v) := by
  refine Logic.call_direct ?_
  have read : Standard.single [.value (.str name)] = .ok (.str name) := rfl
  simp only [read, bind, Except.bind, Standard.literal, bound]
  rfl

/-- To apply a sub-expression is to ask for its body.  The expression that it came from is not
consulted. -/
theorem call_application (parameter : String) (body : Operand) (v : Value) :
    registry.call scope Standard.application [.value (.subExpr parameter body), .value v] =
      .ok (.demand (.force ⟨body, scope.env.insert parameter v⟩)) := by
  have run : Standard.application.run scope [.value (.subExpr parameter body), .value v] =
    .ok (.apply (.subExpr ⟨parameter, body⟩) [v]) := rfl
  exact call_of_run_eq_subExpr registry run

end Calls

/-! ### Evaluation -/

section Application

variable {host : Host} {key arg parameter : String} {body : Operand}
variable (stored : host.get? key = some (.subExpr parameter body)) {env : Environment}
variable {n : Nat} {r : Except EvalCause Value}

include stored

/-- The first node comes to the stored value, in one step. -/
theorem computes_stored_iff : Computes ⟨host, .standard, applyPool key arg⟩ env 0 n r ↔
    n = 1 ∧ r = .ok (.subExpr parameter body) := by
  have found : (applyPool key arg).get? 0 = some ⟨"*", [.literal key]⟩ := rfl
  have registered : Registry.standard.find? ⟨"*", 1⟩ =
    some ⟨⟨"*", 1⟩, .operator .prefix1, Standard.dereference, none⟩ := rfl
  exact computes_iff_of_call ⟨host, .standard, applyPool key arg⟩ found
    (fun _ _ => prepares_single_literal_iff) registered (call_dereference _ stored)

/-- The operands of the application become the stored value and the argument, in three steps. -/
theorem prepares_stored_iff {r : Except EvalCause (List Arg)} :
    Prepares ⟨host, .standard, applyPool key arg⟩ env [.node 0, .literal arg] n r ↔
      n = 3 ∧ r = .ok [.value (.subExpr parameter body), .value (.str arg)] := by
  constructor
  · intro h
    cases h with
    | node computed rest =>
        obtain ⟨rfl, value⟩ := (computes_stored_iff stored).mp computed
        obtain ⟨rfl, rfl⟩ := prepares_single_literal_iff.mp rest
        cases value
        exact ⟨rfl, rfl⟩
    | failure failed => cases ((computes_stored_iff stored).mp failed).2
  · rintro ⟨rfl, rfl⟩
    exact .node ((computes_stored_iff stored).mpr ⟨rfl, rfl⟩)
      (prepares_single_literal_iff.mpr ⟨rfl, rfl⟩)

/-- **The application comes to what the body comes to over the nodes of the
application**, five steps later, or four if that is an error. -/
theorem evaluates_application_iff :
    Evaluates ⟨host, .standard, applyPool key arg⟩ env (.node 1) n r ↔
      ∃ m, n = m + 4 + answering r ∧ Evaluates ⟨host, .standard, applyPool key arg⟩
        (env.insert parameter (.str arg)) body m r := by
  have found : (applyPool key arg).get? 1 = some ⟨"apply", [.node 0, .literal arg]⟩ := rfl
  have registered : Registry.standard.find? ⟨"apply", 2⟩ =
    some ⟨⟨"apply", 2⟩, .operator .infix2, Standard.application, none⟩ := rfl
  have computes (n : Nat) : Computes ⟨host, .standard, applyPool key arg⟩ env 1 n r ↔
      ∃ m, n = 3 + 1 + m ∧ Meets ⟨host, .standard, applyPool key arg⟩ env
        (.force ⟨body, env.insert parameter (.str arg)⟩) m r :=
    computes_iff_of_call ⟨host, .standard, applyPool key arg⟩ found
      (fun _ _ => prepares_stored_iff stored) registered (call_application _ _ _ _)
  rw [evaluates_node_iff]
  constructor
  · rintro ⟨m, rfl, computed⟩
    obtain ⟨l, rfl, met⟩ := (computes m).mp computed
    cases met with
    | force evaluated => exact ⟨l, by omega, evaluated⟩
  · rintro ⟨m, rfl, evaluated⟩
    exact ⟨m + 4, rfl, (computes _).mpr ⟨m, by omega, .force evaluated⟩⟩

end Application

/-- A body that is the application itself comes to nothing: it goes on to apply itself.  A
derivation of it would contain a shorter one of the same kind. -/
theorem not_evaluates_itself {host : Host} {key arg parameter : String}
    (stored : host.get? key = some (.subExpr parameter (.node 1))) {env : Environment} {n : Nat}
    {r : Except EvalCause Value} :
    ¬Evaluates ⟨host, .standard, applyPool key arg⟩ env (.node 1) n r := by
  induction n using Nat.strongRecOn generalizing env with
  | ind n shorter =>
      intro h
      obtain ⟨m, rfl, again⟩ := (evaluates_application_iff stored).mp h
      exact shorter m (by omega) again

/-! ### The identity function -/

/-- The text of the identity function comes to it as a value, with the first node as
its body. -/
theorem evaluates_identity (host : Host) (name : String) (env : Environment) :
    Evaluates ⟨host, .standard, identityPool name⟩ env (.node 1) 2
      (.ok (.subExpr name (.node 0))) := by
  have found : (identityPool name).get? 1 = some ⟨"=>", [.literal name, .block (.node 0)]⟩ := rfl
  have registered : Registry.standard.find? ⟨"=>", 2⟩ =
    some ⟨⟨"=>", 2⟩, .operator .infix2, Standard.subExpression, none⟩ := rfl
  exact .value (.value found (.literal (.block .nil)) registered (Logic.call_direct rfl))

/-- Over the nodes of this text, the body comes to the argument. -/
theorem evaluates_identity_body (host : Host) (name : String) (env : Environment) (v : Value) :
    Evaluates ⟨host, .standard, identityPool name⟩ (env.insert name v) (.node 0) 2 (.ok v) := by
  have found : (identityPool name).get? 0 = some ⟨"v", [.literal name]⟩ := rfl
  have registered : Registry.standard.find? ⟨"v", 1⟩ =
    some ⟨⟨"v", 1⟩, .operator .prefix1, Standard.variableValue, none⟩ := rfl
  have bound : (env.insert name v).get? name = some v :=
    (Dictionary.get?_insert _ _ _ _).trans (if_pos rfl)
  exact .value (.value found (.literal .nil) registered (call_variableValue _ bound))

/-- The host that has the identity function at `k`. -/
def identityHost : Host :=
  Record.toHost (Dictionary.empty.insert "k" (.subExpr "x" (.node 0)))

/-- A host that keeps the identity function, with the first node of its own expression as the
body. -/
theorem get?_identityHost : identityHost.get? "k" = some (.subExpr "x" (.node 0)) :=
  (Dictionary.get?_insert _ _ _ _).trans (if_pos rfl)

/-! ### Stored values -/

/-- **A stored sub-expression runs over the nodes of the expression that applies it.**
If its body is a literal, this makes no difference.  If the body is a node, the index
alone decides which one is taken for it: the one that finds the stored value, the one
that applies it, or none. -/
theorem apply_stored {host : Host} {key arg parameter : String} {body : Operand}
    (hk : '\'' ∉ key.toList) (ha : '\'' ∉ arg.toList)
    (stored : host.get? key = some (.subExpr parameter body)) :
    ∃ e, Engine.standard.compile (applyText key arg) = .ok e ∧
      (∃ enough, ∀ budget ≥ enough, seen? (e.run host .empty budget).result =
        seen? ((e.withRoot body).run host (Dictionary.empty.insert parameter (.str arg))
          budget).result) ∧
      (∀ text, body = .literal text → ∀ budget ≥ 6,
        (e.run host .empty budget).result = .ok (.str text)) ∧
      (body = .node 0 → ∀ budget ≥ 7,
        (e.run host .empty budget).result = .ok (.subExpr parameter body)) ∧
      (body = .node 1 → ∀ budget,
        (e.run host .empty budget).result = .error (.budgetExceeded budget)) ∧
      ∀ i ≥ 2, body = .node i → ∀ budget ≥ 4,
        (e.run host .empty budget).result = .error (.internal .danglingNode) := by
  have application {n : Nat} {r : Except EvalCause Value} :
      Evaluates ⟨host, .standard, applyPool key arg⟩ .empty (.node 1) n r ↔
        ∃ m, n = m + 4 + answering r ∧ Evaluates ⟨host, .standard, applyPool key arg⟩
          (Dictionary.empty.insert parameter (.str arg)) body m r :=
    evaluates_application_iff stored
  refine ⟨_, compile_applyText hk ha, ?_, ?_, ?_, ?_, ?_⟩
  · by_cases ended : ∃ m r, Evaluates ⟨host, .standard, applyPool key arg⟩
        (Dictionary.empty.insert parameter (.str arg)) body m r
    · obtain ⟨m, r, h⟩ := ended
      refine ⟨m + 4 + answering r, fun budget enough => ?_⟩
      rw [Expression.seen?_run (application.mpr ⟨m, rfl, h⟩) enough]
      exact (Expression.seen?_run h (by omega)).symm
    · -- If the body goes on for ever, so does the application.
      refine ⟨0, fun budget _ => ?_⟩
      rw [Expression.run_exceeds _ budget, Expression.run_exceeds ended budget]
      rintro ⟨n, r, h⟩
      obtain ⟨m, -, h'⟩ := application.mp h
      exact ended ⟨m, r, h'⟩
  · -- A literal is the same over any nodes.
    rintro text rfl budget enough
    exact Expression.run_eq_ok (application.mpr ⟨1, rfl, .literal⟩) enough
  · rintro rfl budget enough
    exact Expression.run_eq_ok (application.mpr
      ⟨2, rfl, .value ((computes_stored_iff stored).mpr ⟨rfl, rfl⟩)⟩) enough
  · rintro rfl budget
    -- The second node is the application, which would contain itself.
    refine Expression.run_exceeds ?_ budget
    rintro ⟨n, r, h⟩
    exact not_evaluates_itself stored h
  · rintro i beyond rfl budget enough
    have missing : (applyPool key arg).get? i = none := Pool.get?_eq_none_iff.mpr beyond
    have dangling := application.mpr ⟨0, rfl, .failure (.dangling missing)⟩
    exact eq_internal_of_seen?_eq (Expression.seen?_run dangling enough)

/-- The identity function, stored and applied. -/
theorem apply_stored_identity :
    identityHost.get? "k" = some (.subExpr "x" (.node 0)) ∧
      ∃ e, Engine.standard.compile (applyText "k" "a") = .ok e ∧ ∀ budget ≥ 7,
        (e.run identityHost .empty budget).result = .ok (.subExpr "x" (.node 0)) := by
  obtain ⟨e, compiled, -, -, self, -⟩ :=
    apply_stored (by decide : '\'' ∉ "k".toList) (by decide : '\'' ∉ "a".toList)
      get?_identityHost
  exact ⟨get?_identityHost, e, compiled, self rfl⟩

/-- **The identity function is lost when it is stored.**  In its own expression the
body comes to the argument; in another one, to the function itself. -/
theorem stored_body_lost :
    ∃ function application : Expression,
      Engine.standard.compile "'x' => \x7bv 'x'\x7d" = .ok function ∧
      (∀ budget ≥ 2, (function.run (Record.toHost .empty) .empty budget).result =
        .ok (.subExpr "x" (.node 0))) ∧
      (∀ budget ≥ 2, ((function.withRoot (.node 0)).run identityHost
        (Dictionary.empty.insert "x" (.str "a")) budget).result = .ok (.str "a")) ∧
      Engine.standard.compile "*'k' apply 'a'" = .ok application ∧
      ∀ budget ≥ 7, (application.run identityHost .empty budget).result =
        .ok (.subExpr "x" (.node 0)) := by
  have made : identityText "x" = "'x' => \x7bv 'x'\x7d" := by decide
  have applied : applyText "k" "a" = "*'k' apply 'a'" := by decide
  refine ⟨⟨.node 1, identityPool "x", .standard, {}⟩, ⟨.node 1, applyPool "k" "a", .standard, {}⟩,
    made ▸ compile_identityText (by decide), ?_, ?_,
    applied ▸ compile_applyText (by decide) (by decide), ?_⟩
  · exact fun budget enough => Expression.run_eq_ok (evaluates_identity _ "x" .empty) enough
  · intro budget enough
    exact Expression.run_eq_ok (evaluates_identity_body _ "x" .empty (.str "a")) enough
  · intro budget enough
    have inner : Evaluates ⟨identityHost, .standard, applyPool "k" "a"⟩
        (Dictionary.empty.insert "x" (.str "a")) (.node 0) 2 (.ok (.subExpr "x" (.node 0))) :=
      .value ((computes_stored_iff get?_identityHost).mpr ⟨rfl, rfl⟩)
    have outer := (evaluates_application_iff get?_identityHost).mpr ⟨2, rfl, inner⟩
    exact Expression.run_eq_ok outer enough

end Stored

end RuleEngine
