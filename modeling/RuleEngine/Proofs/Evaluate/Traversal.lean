import RuleEngine.Proofs.Evaluate.Adequacy
import RuleEngine.Proofs.Schedule.Nesting
import RuleEngine.Standard.Library

/-!
# Going through lists

A frame of elements applies its callee to them one after another.  What an
application comes to may be there at once, or be brought by a task that the frame
calls for the demand of a body.  Here both are the same: a traversal is the list
operation of its name on the results for the elements.

## Main definitions

* `Traversal.listed` - the list operations.
* `Traversal.held` - the element that is held behind some others.
* `Brings` - what a demand comes to if a task meets it alone, and in how many steps.
* `Answers` - the same for the application to one element, in either way.
* `AnswersAll`, `Stops` - results that the list operation accepts, and an element that
  stops it.
* `AnswersAlike` - another callee comes to the same results.
* `ListOperation` - the laws of traversals.

## Main statements

* `Answers.runs` - one element: the frame goes on to the next one in the same
  environment, or the run is over.
* `exists_answersAll` - a traversal that ends has accepted all elements, or those in front
  of one that stops it.
* `listOperation` - the laws hold for all callees, registries, pools, hosts and
  environments.

## Design notes

**Two ways, one law.**  When a result is there at once, the frame still has the element at
hand.  When a task brings it, the frame has been left in the meantime, and it is the frame's
`current` element with which the result is paired later.  `absorb_answer` is about the first
way and `collect_answer` about the second; `Answers.runs` no longer tells them apart.

An element whose task never ends has no result, and then the traversal has none either.
-/

namespace RuleEngine

open Schedule (Stop)

namespace Traversal

/-- Whether the result for an element can be combined with others. -/
def accepts : Traversal → Value → Bool
  | flatMap, v => v.items?.isSome
  | _, _ => true

/-- The list that the results for the elements make. -/
def listed (how : Traversal) (host : Host) (items results : List Value) : List Value :=
  match how with
  | map => results
  | filter => ((items.zip results).filter fun pair => pair.2.isTruthy host).map Prod.fst
  | flatMap => results.flatMap fun result => result.items?.getD []

variable (how : Traversal) (host : Host) (item result : Value)

@[simp] theorem listed_nil : how.listed host [] [] = [] := by
  cases how <;> rfl

/-- The element in front contributes first, and what it contributes does not depend on the others.
So the list can be made from left to right, one element in each step. -/
theorem listed_cons (items results : List Value) :
    how.listed host (item :: items) (result :: results) =
      how.listed host [item] [result] ++ how.listed host items results := by
  cases how with
  | map => rfl
  | flatMap => simp [listed]
  | filter => cases truth : result.isTruthy host <;> simp [listed, truth]

/-- What a traversal that has been holding `current` holds when it has gone through the
elements. -/
def held (how : Traversal) : (current : Option Value) → (items : List Value) → Option Value
  | current, [] => current
  | _, item :: items => how.held (how.park item) items

/-- One element contributes what the list operation makes of it alone.  This is where the rules of
the semantics for single elements meet the operations on whole lists. -/
theorem combine_eq :
    how.combine host item result =
      if how.accepts result then .ok (how.listed host [item] [result])
      else .error (.invalid "flatMap function must return a list" [result]) := by
  cases how with
  | map => rfl
  | filter => cases truth : result.isTruthy host <;> simp [combine, accepts, listed, truth]
  | flatMap => cases result <;> simp [combine, accepts, listed, Value.items?]

end Traversal

namespace Semantics

open Evaluate

/-! ### Results of tasks -/

/-- The demand of a body that runs in `env` comes to the result in so many steps, if a
task meets it alone.  A demand that no task can begin to meet fails in none. -/
def Brings (context : Context) (env : Environment) (demand : Demand) (n : Nat)
    (r : Except EvalError Value) : Prop :=
  match demand.start context env with
  | .error e => n = 0 ∧ r = .error e
  | .ok frame => Schedule.Yields (program context) Frame.receive (.new demand.routine frame)
      (r.mapError .raised) n

/-- Where an application to an element fails. -/
abbrev place (env : Environment) (callee : Callee) (how : Traversal) : EvalSnapshot :=
  ⟨[how.render ++ " " ++ callee.toValue.render], env⟩

/-- Applied to one element in `env`, the callee comes to the result in so many steps. -/
inductive Answers (context : Context) (env : Environment) (callee : Callee)
    (how : Traversal) (item : Value) : (n : Nat) → Except EvalError Value → Prop
  /-- The application fails. -/
  | failed {cause} :
      context.registry.apply (scopeIn context env) callee [item] = .error cause →
      Answers context env callee how item 1
        (.error (.operator how.render cause (place env callee how)))
  /-- The result is there at once. -/
  | atOnce {v} :
      context.registry.apply (scopeIn context env) callee [item] = .ok (.value v) →
      Answers context env callee how item 1 (.ok v)
  /-- The result is that of a demand. -/
  | later {demand m r} :
      context.registry.apply (scopeIn context env) callee [item] = .ok (.demand demand) →
      Brings context env demand m r → Answers context env callee how item (m + 1) r

/-- The callee comes to these results for the elements, and all of them are accepted. -/
inductive AnswersAll (context : Context) (env : Environment) (callee : Callee)
    (how : Traversal) : (items : List Value) → (n : Nat) → (results : List Value) → Prop
  | nil : AnswersAll context env callee how [] 0 []
  | cons {item items m n v results} : Answers context env callee how item m (.ok v) →
      how.accepts v = true → AnswersAll context env callee how items n results →
      AnswersAll context env callee how (item :: items) (m + n) (v :: results)

/-- The error for a result that is not accepted. -/
abbrev refusal (env : Environment) (callee : Callee) (how : Traversal) (v : Value) : EvalError :=
  .operator how.render (.invalid "flatMap function must return a list" [v])
    (place env callee how)

/-- An element stops a traversal with the error after so many steps of its own: the
application fails, or the list operation does not accept its result. -/
inductive Stops (context : Context) (env : Environment) (callee : Callee) (how : Traversal)
    (item : Value) (n : Nat) : EvalError → Prop
  | failed {e} : Answers context env callee how item n (.error e) →
      Stops context env callee how item n e
  | refused {v} : Answers context env callee how item n (.ok v) → how.accepts v = false →
      Stops context env callee how item n (refusal env callee how v)

variable {context : Context} {env : Environment} {callee : Callee} {how : Traversal}
variable {item v : Value} {items results gathered : List Value} {current : Option Value}
variable {e : EvalError}
variable {receiver : Option (Frame → Value → Except EvalError Frame)} {outer tasks : List Task}
variable {m n : Nat} {r : Except EvalError Value} {result : Except (Stop EvalError) Value}

/-- An error that a step raises is none of the scheduler's own. -/
theorem mapError_raised_ne (r : Except EvalError Value) (fault : Schedule.Fault) :
    r.mapError Stop.raised ≠ .error (.fault fault) := by
  cases r <;> exact nofun

/-- What a step raises is told apart from what another one raises, so a run has one result only. -/
theorem mapError_raised_inj {r r' : Except EvalError Value}
    (same : r.mapError Stop.raised = r'.mapError .raised) : r = r' := by
  cases r <;> cases r' <;> cases same <;> rfl

/-- A run with a task comes to a value or to an error that a step raises.  The faults of the
scheduler are for runs without a task, or without a receiver. -/
theorem exists_raised (h : Ends context n tasks result) (some_task : tasks ≠ []) :
    ∃ r : Except EvalError Value, result = r.mapError .raised := by
  cases result with
  | ok v => exact ⟨.ok v, rfl⟩
  | error why =>
      cases why with
      | raised e => exact ⟨.error e, rfl⟩
      | fault fault =>
          cases fault with
          | budgetExceeded budget => exact absurd rfl (h.ne_budgetExceeded budget)
          | noTask => exact absurd rfl (h.regular some_task).1
          | unexpectedCall => exact absurd rfl (h.regular some_task).2

/-- A demand that no task can begin to meet comes to the error of its start, in no steps. -/
theorem brings_of_start_eq_error {demand : Demand} (hs : demand.start context env = .error e) :
    Brings context env demand n r ↔ n = 0 ∧ r = .error e := by
  rw [Brings, hs]

/-- Any other demand comes to what the run of its task alone ends with. -/
theorem brings_of_start {demand : Demand} {frame : Frame}
    (hs : demand.start context env = .ok frame) :
    Brings context env demand n r ↔ Ends context n [task frame none] (r.mapError .raised) := by
  rw [Brings, hs, ← new_eq_task hs]
  exact Schedule.yields_iff_ends fun budget => mapError_raised_ne r (.budgetExceeded budget)

/-! ### One element -/

section Absorbing

variable (context : Context) (env : Environment) (callee : Callee) (how : Traversal)
variable (item : Value) (items gathered : List Value) (v : Value)

/-- The frame absorbs the value for the element that it holds, or does not accept it.  If it does,
the results so far are those of the list operation, with the element's contribution added. -/
theorem absorb_answer :
    TraversalFrame.absorb context.host ⟨env, callee, how, items, some item, gathered⟩ v =
      if how.accepts v then
        .ok ⟨env, callee, how, items, how.park item,
          (how.listed context.host [item] [v]).reverse ++ gathered⟩
      else .error (refusal env callee how v) := by
  rw [absorb_eq context.host _ rfl]
  simp only [Traversal.combine_eq]
  cases how.accepts v <;> rfl

/-- So it does with the value of a task, which the receiver of all elements gives to it: the
element is still the one that it has been holding while the task was running.  The receiver is a
function of the frame and the value alone, so the right element is paired with the result because
the frame has kept it. -/
theorem collect_answer :
    Frame.collect context.host
        (.traversal ⟨env, callee, how, items, some item, gathered⟩) v =
      if how.accepts v then
        .ok (.traversal ⟨env, callee, how, items, how.park item,
          (how.listed context.host [item] [v]).reverse ++ gathered⟩)
      else .error (refusal env callee how v) := by
  rw [Frame.collect, absorb_answer]
  split <;> rfl

end Absorbing

/-- The element's own task, which does alone what it does for a demand.  Its receiver does not
matter to it, as it is only asked when the task is done. -/
theorem ends_inner {demand : Demand} {inner : Frame}
    (hs : demand.start context env = .ok inner) (h : Brings context env demand n r) :
    Ends context n [task inner (some (Frame.collect context.host))] (r.mapError .raised) :=
  ((brings_of_start hs).mp h).withReceiver (show [task inner none] = [] ++ [_] from rfl)
    (some (Frame.collect context.host))

/-- What the result for an element says of the machine.  If it is accepted, it is gathered,
and the frame goes on with the elements behind it in the environment that it has.
Otherwise the run is over, whatever is behind the element.  What the frame has been
holding from an element before has no part in it. -/
def ElementRuns (context : Context) (env : Environment) (callee : Callee) (how : Traversal)
    (item : Value) (n : Nat) (r : Except EvalError Value) : Prop :=
  ∀ items current gathered receiver outer,
    match r with
    | .ok v =>
      if how.accepts v then
        Leads context n
          (task (.traversal ⟨env, callee, how, item :: items, current, gathered⟩) receiver ::
            outer)
          (task (.traversal ⟨env, callee, how, items, how.park item,
            (how.listed context.host [item] [v]).reverse ++ gathered⟩) receiver :: outer)
      else
        Ends context n
          (task (.traversal ⟨env, callee, how, item :: items, current, gathered⟩) receiver ::
            outer)
          (.error (.raised (refusal env callee how v)))
    | .error e =>
      Ends context n
        (task (.traversal ⟨env, callee, how, item :: items, current, gathered⟩) receiver ::
          outer)
        (.error (.raised e))

/-- A result that is there at once is absorbed in the same turn in which the callee is applied. -/
theorem elementRuns_of_value
    (happly : context.registry.apply (scopeIn context env) callee [item] = .ok (.value v)) :
    ElementRuns context env callee how item 1 (.ok v) := by
  intro items current gathered receiver outer
  have step := step_element how items current gathered happly
  rw [absorb_answer] at step
  dsimp only
  split
  · rename_i accepted
    rw [if_pos accepted] at step
    exact turn_proceed step
  · rename_i refused
    rw [if_neg refused] at step
    exact turn_fail step

/-- A task that is called for an element hands its value over like one that is there at once, and
its failure is that of the run.  The element waits in the frame below it, through all turns of the
task and of those that the task calls in turn. -/
theorem elementRuns_of_demand {demand : Demand}
    (happly : context.registry.apply (scopeIn context env) callee [item] = .ok (.demand demand))
    (brings : Brings context env demand n r) :
    ElementRuns context env callee how item (n + 1) r := by
  intro items current gathered receiver outer
  cases hs : demand.start context env with
  | error e =>
      obtain ⟨rfl, rfl⟩ := (brings_of_start_eq_error hs).mp brings
      exact turn_fail (by simp only [Frame.step_traversal, TraversalFrame.step, happly, hs])
  | ok inner =>
      have called : Leads context 1
          (task (.traversal ⟨env, callee, how, item :: items, current, gathered⟩) receiver ::
            outer) _ :=
        turn_call (step_element_call how items current gathered happly hs)
      have alone := ends_inner hs brings
      rw [Nat.add_comm]
      cases r with
      | error e => exact called.ends (alone.inside _)
      | ok v =>
          have taken := collect_answer context env callee how item items gathered v
          dsimp only
          split
          · rename_i accepted
            rw [if_pos accepted] at taken
            refine called.trans (alone.hands ?_ outer)
            exact taken
          · rename_i refused
            rw [if_neg refused] at taken
            refine called.ends (alone.refused ?_ outer)
            exact taken

/-- **One element**, whichever way its result arrives: the frame goes on to the elements behind it
with the contribution added, or the run is over. -/
theorem Answers.runs (h : Answers context env callee how item n r) :
    ElementRuns context env callee how item n r := by
  cases h with
  | failed happly =>
      exact fun items current gathered _ _ =>
        turn_fail (step_element_fails how items current gathered happly)
  | atOnce happly => exact elementRuns_of_value happly
  | later happly brings => exact elementRuns_of_demand happly brings

/-- If the result is accepted, the frame goes on to the next element, and a filter holds none
until then. -/
theorem Answers.leads (h : Answers context env callee how item n (.ok v))
    (accepted : how.accepts v = true) :
    Leads context n
      (task (.traversal ⟨env, callee, how, item :: items, current, gathered⟩) receiver :: outer)
      (task (.traversal ⟨env, callee, how, items, how.park item,
        (how.listed context.host [item] [v]).reverse ++ gathered⟩) receiver :: outer) := by
  simpa only [accepted, if_true] using h.runs items current gathered receiver outer

/-- An element that stops the traversal ends the run, whatever elements there are behind it. -/
theorem Stops.ends (h : Stops context env callee how item n e) :
    Ends context n
      (task (.traversal ⟨env, callee, how, item :: items, current, gathered⟩) receiver :: outer)
      (.error (.raised e)) := by
  cases h with
  | failed answer => exact answer.runs items current gathered receiver outer
  | refused answer refused =>
      have stopped := answer.runs items current gathered receiver outer
      simpa only [refused, Bool.false_eq_true, if_false] using stopped

/-- A run that ends has got a result for the element in front.  The other way round, an element
whose task goes on forever keeps the traversal from ending. -/
theorem exists_answers (h : Ends context n
      (task (.traversal ⟨env, callee, how, item :: items, current, gathered⟩) receiver :: outer)
      result) :
    ∃ m r, Answers context env callee how item m r := by
  cases happly : context.registry.apply (scopeIn context env) callee [item] with
  | error cause => exact ⟨_, _, .failed happly⟩
  | ok reply =>
      cases reply with
      | value v => exact ⟨_, _, .atOnce happly⟩
      | demand demand =>
          cases hs : demand.start context env with
          | error e => exact ⟨_, _, .later happly ((brings_of_start_eq_error hs).mpr ⟨rfl, rfl⟩)⟩
          | ok inner =>
              -- The run gets to the end of the task that is called for the element.
              obtain ⟨k, -, rest⟩ :=
                h.after (turn_call (step_element_call how items current gathered happly hs))
              obtain ⟨m, result', -, alone⟩ := rest.exists_alone
              obtain ⟨r, rfl⟩ := exists_raised alone (List.cons_ne_nil _ _)
              have brings : Brings context env demand m r :=
                (brings_of_start hs).mpr (alone.withReceiver (show [_] = [] ++ [_] from rfl) none)
              exact ⟨m + 1, r, .later happly brings⟩

/-! ### All elements -/

/-- The turns of elements that are all accepted, one element after another.  The elements behind
them may be any, so the law holds at every moment of a traversal and not only at its end. -/
theorem AnswersAll.leads (h : AnswersAll context env callee how items n results)
    (rest : List Value) (current : Option Value) (gathered : List Value)
    (receiver : Option (Frame → Value → Except EvalError Frame)) (outer : List Task) :
    Leads context n
      (task (.traversal ⟨env, callee, how, items ++ rest, current, gathered⟩) receiver :: outer)
      (task (.traversal ⟨env, callee, how, rest, how.held current items,
        (how.listed context.host items results).reverse ++ gathered⟩) receiver :: outer) := by
  induction h generalizing current gathered with
  | nil =>
      rw [Traversal.listed_nil]
      exact .refl _
  | @cons item items m n v results first accepted _ ih =>
      have later := ih (how.park item) ((how.listed context.host [item] [v]).reverse ++ gathered)
      rw [Traversal.listed_cons, List.reverse_append, List.append_assoc]
      exact (first.leads accepted).trans later

/-- A traversal of which the elements are all accepted comes to the list they make, one step after
the last of them. -/
theorem AnswersAll.ends (h : AnswersAll context env callee how items n results)
    (current : Option Value) (gathered : List Value) :
    Ends context (n + 1) [task (.traversal ⟨env, callee, how, items, current, gathered⟩) receiver]
      (.ok (.list (gathered.reverse ++ how.listed context.host items results))) := by
  have leads := h.leads [] current gathered receiver []
  rw [List.append_nil] at leads
  refine leads.ends (.last ?_)
  rw [turn_done (show Frame.step context (.traversal _) = .done _ from rfl)]
  simp [Schedule.handBack]

/-- A traversal comes to an end as long as it takes to get to an element that stops it.  Nothing
is left of the results so far. -/
theorem AnswersAll.ends_of_stops (h : AnswersAll context env callee how items m results)
    (stops : Stops context env callee how item n e) (rest : List Value)
    (current : Option Value) (gathered : List Value) :
    Ends context (m + n)
      [task (.traversal ⟨env, callee, how, items ++ item :: rest, current, gathered⟩) receiver]
      (.error (.raised e)) :=
  (h.leads (item :: rest) current gathered receiver []).ends stops.ends

/-- A run that ends has accepted all elements, or all in front of one that stops it. -/
theorem exists_answersAll (h : Ends context n
      [task (.traversal ⟨env, callee, how, items, current, gathered⟩) receiver] result) :
    (∃ m results, AnswersAll context env callee how items m results) ∨
      ∃ front item rest m results k e, items = front ++ item :: rest ∧
        AnswersAll context env callee how front m results ∧
        Stops context env callee how item k e := by
  induction items generalizing current gathered n with
  | nil => exact .inl ⟨0, [], .nil⟩
  | cons item items ih =>
      obtain ⟨m, r, answer⟩ := exists_answers h
      cases r with
      | error e => exact .inr ⟨[], item, items, 0, [], m, e, rfl, .nil, .failed answer⟩
      | ok v =>
          cases accepted : how.accepts v with
          | false =>
              exact .inr ⟨[], item, items, 0, [], m, _, rfl, .nil, .refused answer accepted⟩
          | true =>
              obtain ⟨k, -, later⟩ := h.after (answer.leads accepted)
              rcases ih later with
                ⟨m', results, all⟩ | ⟨front, last, rest, m', results, k, e, rfl, all, stops⟩
              · exact .inl ⟨_, _, .cons answer accepted all⟩
              · exact .inr ⟨item :: front, last, rest, _, _, k, e, rfl,
                  .cons answer accepted all, stops⟩

/-! ### Demands of traversals -/

/-- A demand for a traversal is met by its frame with no results and no element held. -/
theorem brings_traverse_iff :
    Brings context env (.traverse items callee how) n r ↔
      Ends context n [task (.traversal ⟨env, callee, how, items, none, []⟩) none]
        (r.mapError .raised) :=
  brings_of_start rfl

/-- The demand comes to the list that the results for all elements make. -/
theorem brings_of_answersAll (h : AnswersAll context env callee how items m results) :
    Brings context env (.traverse items callee how) (m + 1)
      (.ok (.list (how.listed context.host items results))) :=
  brings_traverse_iff.mpr (h.ends none [])

/-- The demand comes to the error of the first element that stops it. -/
theorem brings_of_stops (h : AnswersAll context env callee how items m results)
    (stops : Stops context env callee how item n e) (rest : List Value) :
    Brings context env (.traverse (items ++ item :: rest) callee how) (m + n) (.error e) :=
  brings_traverse_iff.mpr (h.ends_of_stops stops rest none [])

/-- A demand comes to one result, in one number of steps: runs are deterministic. -/
theorem Brings.unique {demand : Demand} {r' : Except EvalError Value}
    (h : Brings context env demand m r) (h' : Brings context env demand n r') :
    m = n ∧ r = r' := by
  cases hs : demand.start context env with
  | error e =>
      obtain ⟨rfl, rfl⟩ := (brings_of_start_eq_error hs).mp h
      obtain ⟨rfl, rfl⟩ := (brings_of_start_eq_error hs).mp h'
      exact ⟨rfl, rfl⟩
  | ok frame =>
      obtain ⟨rfl, same⟩ := ((brings_of_start hs).mp h).unique ((brings_of_start hs).mp h')
      exact ⟨rfl, mapError_raised_inj same⟩

/-- There are no other results of a traversal than these two. -/
theorem brings_traverse_cases (h : Brings context env (.traverse items callee how) n r) :
    (∃ m results, AnswersAll context env callee how items m results ∧ n = m + 1 ∧
      r = .ok (.list (how.listed context.host items results))) ∨
    ∃ front item rest m results k e, items = front ++ item :: rest ∧
      AnswersAll context env callee how front m results ∧
      Stops context env callee how item k e ∧ n = m + k ∧ r = .error e := by
  rcases exists_answersAll (brings_traverse_iff.mp h) with
    ⟨m, results, all⟩ | ⟨front, item, rest, m, results, k, e, rfl, all, stops⟩
  · obtain ⟨rfl, rfl⟩ := h.unique (brings_of_answersAll all)
    exact .inl ⟨m, results, all, rfl, rfl⟩
  · obtain ⟨rfl, rfl⟩ := h.unique (brings_of_stops all stops rest)
    exact .inr ⟨front, item, rest, m, results, k, e, rfl, all, stops, rfl, rfl⟩

/-! ### Other ways to the same results -/

section Independence

variable {context' : Context} {env' : Environment} {callee' : Callee}

/-- Each result that a callee comes to for the element is one that the other callee comes
to as well, but for the place of an error. -/
def AnswersAlike (context context' : Context) (env env' : Environment)
    (callee callee' : Callee) (how : Traversal) (item : Value) : Prop :=
  ∀ n r, Answers context env callee how item n r →
    ∃ n' r', Answers context' env' callee' how item n' r' ∧ seen? r' = seen? r

/-- If another callee comes to the same results for the same elements, possibly in other numbers
of steps, the lists are the same. -/
theorem AnswersAll.alike (h : AnswersAll context env callee how items n results)
    (alike : ∀ item ∈ items, AnswersAlike context context' env env' callee callee' how item) :
    ∃ n', AnswersAll context' env' callee' how items n' results := by
  induction h with
  | nil => exact ⟨0, .nil⟩
  | cons answer accepted _ ih =>
      obtain ⟨m', r', answer', same⟩ := alike _ List.mem_cons_self _ _ answer
      obtain rfl := seen?_eq_ok_iff.mp same
      obtain ⟨n', all⟩ := ih fun item inside => alike item (List.mem_cons_of_mem _ inside)
      exact ⟨_, .cons answer' accepted all⟩

/-- It is stopped by the same element as well, for the same cause. -/
theorem Stops.alike (h : Stops context env callee how item n e)
    (alike : AnswersAlike context context' env env' callee callee' how item) :
    ∃ n' e', Stops context' env' callee' how item n' e' ∧ e'.cause? = e.cause? := by
  cases h with
  | failed answer =>
      obtain ⟨n', r', answer', same⟩ := alike _ _ answer
      cases r' with
      | ok v => exact absurd (seen?_eq_ok_iff.mp same.symm) (by simp)
      | error e' =>
          refine ⟨n', e', .failed answer', ?_⟩
          exact Option.map_injective (fun _ _ => Except.error.inj) same
  | refused answer refused =>
      obtain ⟨n', r', answer', same⟩ := alike _ _ answer
      obtain rfl := seen?_eq_ok_iff.mp same
      exact ⟨n', _, .refused answer' refused, rfl⟩

end Independence

/-! ### The laws -/

/-- The laws of going through lists in `env`. -/
structure ListOperation (context : Context) (env : Environment) (callee : Callee)
    (how : Traversal) : Prop where
  /-- **From left to right, all in `env`.**  When the elements in front have their
  results, the run has taken the steps of these and no others, and the frame is in `env`
  with the elements behind them still to come.  It holds the last element in front, unless
  it filters: then every element in front has been taken for its own result. -/
  leftToRight : ∀ {front m results}, AnswersAll context env callee how front m results →
    ∀ (rest : List Value) (budget : Nat), m ≤ budget →
      Schedule.repeatUnit
          (Schedule.advance ⟨program context, budget, some Frame.receive⟩) m
          (.start [.new .traversal (.traversal ⟨env, callee, how, front ++ rest, none, []⟩)]) =
        .running ⟨[.new .traversal (.traversal ⟨env, callee, how, rest, how.held none front,
          (how.listed context.host front results).reverse⟩)], m, 0⟩
  /-- **The list operation on the results**, if all of them are accepted. -/
  success : ∀ {items m results}, AnswersAll context env callee how items m results →
    Brings context env (.traverse items callee how) (m + 1)
      (.ok (.list (how.listed context.host items results)))
  /-- **The first element that stops the traversal determines the error.**  What is behind
  it has no part in the run. -/
  stopped : ∀ {front m results item n e}, AnswersAll context env callee how front m results →
    Stops context env callee how item n e → ∀ rest : List Value,
      Brings context env (.traverse (front ++ item :: rest) callee how) (m + n) (.error e)
  /-- There is no other way for a traversal to come to something. -/
  only : ∀ {items n r}, Brings context env (.traverse items callee how) n r →
    (∃ m results, AnswersAll context env callee how items m results ∧ n = m + 1 ∧
      r = .ok (.list (how.listed context.host items results))) ∨
    ∃ front item rest m results k e, items = front ++ item :: rest ∧
      AnswersAll context env callee how front m results ∧
      Stops context env callee how item k e ∧ n = m + k ∧ r = .error e
  /-- **Only the results count.**  Another callee, another registry, pool or environment
  may bring them in another way: the traversal comes to the same value, or to an error
  with the same cause. -/
  independent : ∀ {context' : Context} {env' : Environment} {callee' : Callee},
    context'.host = context.host → ∀ {items},
      (∀ item ∈ items, AnswersAlike context context' env env' callee callee' how item) →
      ∀ {n r}, Brings context env (.traverse items callee how) n r →
        ∃ n' r', Brings context' env' (.traverse items callee' how) n' r' ∧ seen? r' = seen? r

/-- **Traversals are list operations**, with all callees and wherever the results come from.  The
laws are about the frames and tasks of the evaluation itself: elements are held in frames while
tasks run for them, and the results for all of them come in through one and the same receiver. -/
theorem listOperation (context : Context) (env : Environment) (callee : Callee)
    (how : Traversal) : ListOperation context env callee how where
  leftToRight := by
    intro front m results all rest budget within
    have leads := all.leads rest none [] none []
    rw [List.append_nil] at leads
    exact Schedule.repeatUnit_advance_eq_running_iff.mpr
      ⟨.inr (by simpa [Schedule.State.start] using within), leads, (Nat.zero_add m).symm, rfl⟩
  success := brings_of_answersAll
  stopped := brings_of_stops
  only := brings_traverse_cases
  independent := by
    intro context' env' callee' host items alike n r h
    rcases brings_traverse_cases h with
      ⟨m, results, all, rfl, rfl⟩ | ⟨front, item, rest, m, results, k, e, rfl, all, stops, rfl, rfl⟩
    · obtain ⟨m', all'⟩ := all.alike alike
      exact ⟨_, _, brings_of_answersAll all', by rw [host]⟩
    · obtain ⟨m', all'⟩ := all.alike fun item inside => alike item (by simp [inside])
      obtain ⟨k', e', stops', same⟩ := stops.alike (alike item (by simp))
      exact ⟨_, _, brings_of_stops all' stops' rest, congrArg (Option.map Except.error) same⟩

/-- The standard operations without any nodes or data. -/
abbrev bareContext : Context := ⟨Record.toHost .empty, .standard, .empty⟩

/-- The operator that calls the first of some joined values with the others. -/
abbrev callOperator : Callee := .function (.new ⟨"call", 1⟩)

/-- What the operator is given for a call of the function `Not`. -/
abbrev callOfNot : Value := .args [.str "Not", .str "true"]

/-- What it is given for a call of a body, which is evaluated by a task. -/
abbrev callOfBody : Value := .args [.subExpr "x" (.literal "true"), .str "a"]

/-- Applied to a list of an operator and its operands, the callee of the example calls the
operator. -/
theorem apply_callOperator (all : Value) (env : Environment) :
    bareContext.registry.apply (scopeIn bareContext env) callOperator [all] =
      bareContext.registry.call (scopeIn bareContext env) Standard.prefixCall [.value all] := rfl

theorem answers_callOfNot (how : Traversal) :
    Answers bareContext .empty callOperator how callOfNot 1 (.ok (.bool false)) := by
  refine .atOnce ?_
  rw [apply_callOperator, Registry.call_eq]
  have replied : Standard.prefixCall.run (scopeIn bareContext .empty) [.value callOfNot] =
      .ok (.apply (.function (.new ⟨"Not", 1⟩)) [.str "true"]) := rfl
  have hit : bareContext.registry.target (.new ⟨"Not", 1⟩) [.str "true"] =
      .ok (Standard.negation, [.value (.str "true")]) := rfl
  simp only [replied, hit]
  rw [Registry.call_eq]
  rfl

theorem answers_callOfBody (how : Traversal) :
    Answers bareContext .empty callOperator how callOfBody 2 (.ok (.str "true")) := by
  have replied : bareContext.registry.apply (scopeIn bareContext .empty) callOperator [callOfBody] =
      .ok (.demand (.force ⟨.literal "true", Dictionary.empty.insert "x" (.str "a")⟩)) := by
    rw [apply_callOperator, Registry.call_eq]
    rfl
  have life : Ends bareContext 1
      [task (.operand ⟨Dictionary.empty.insert "x" (.str "a"), [.value (.str "true")]⟩) none]
      (.ok (.str "true")) := .last rfl
  exact .later replied ((brings_of_start rfl).mpr life)

/-- Of a value that is there at once and one that a task brings, the filter keeps the element with
the true one. -/
theorem brings_filter_of_both_ways :
    AnswersAll bareContext .empty callOperator .filter [callOfNot, callOfBody] 3
        [.bool false, .str "true"] ∧
      Brings bareContext .empty (.traverse [callOfNot, callOfBody] callOperator .filter) 4
        (.ok (.list [callOfBody])) := by
  have all : AnswersAll bareContext .empty callOperator .filter [callOfNot, callOfBody] 3
      [.bool false, .str "true"] :=
    .cons (answers_callOfNot .filter) rfl (.cons (answers_callOfBody .filter) rfl .nil)
  exact ⟨all, (listOperation bareContext .empty callOperator .filter).success all⟩

end Semantics

end RuleEngine
