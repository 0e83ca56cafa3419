import RuleEngine.Proofs.Parse.Fold
import RuleEngine.Proofs.Parse.Recognition

/-!
# The pool in every state of the parser

A desugaring sees the pool and the operands, and it may answer with any node at
all: one that copies another node, that wraps its operands, or that points at
an index it made up.  Still no state of the parser has a node or an operand that
leads to a missing node, or a node that leads to itself.

Only two actions have a say in this.  A reduction adds a node after asking
`Pool.accepts`, which looks through braces and deferrals; and braces, when they
close, wrap an operand without changing what it leads to.  All other actions
move operands that are there already, or push a literal.

States are those of the scheduler, batches included, and not only those between whole
actions: reachability is the reflexive and transitive closure of what the scheduler does,
attempts at batches among it.  A parser is a single task in each of them, so what holds
of its configuration is said of every state.

## Main definitions

* `Pool.WellFormed`, `Configuration.WellFormed` - what every action preserves.
* `rules` - what stays the same during a run of the parser.

## Main statements

* `Configuration.WellFormed.step`, `Configuration.extends_of_step` - an action
  preserves well-formedness and every node.
* `reaches_wellFormed` - both hold of all states that parsing reaches, of its result
  and of the snapshot of its error.
-/

namespace RuleEngine

/-- Every node refers to earlier nodes only, and its signature states the number
of its operands. -/
structure Pool.WellFormed (pool : Pool) : Prop where
  /-- References lead backwards, through any braces and deferrals. -/
  acyclic : pool.Acyclic
  /-- The stated arity is that of the operands. -/
  arity : ∀ i node, pool.get? i = some node → node.signature.arity = node.operands.length

/-- In an acyclic pool, nodes are well-formed: the signature of each states how many operands it
has, by definition, and these lead to earlier nodes. -/
theorem Pool.wellFormed_of_acyclic {pool : Pool} (h : pool.Acyclic) : pool.WellFormed :=
  ⟨h, fun _ node _ => node.arity_signature⟩

/-- A pool that has all nodes of another one is at least as large. -/
theorem Pool.size_le_of_extends {pool pool' : Pool} (h : pool.Extends pool') :
    pool.size ≤ pool'.size := by
  refine Nat.le_of_not_lt fun less => ?_
  cases found : pool.get? pool'.size with
  | none => exact absurd (get?_eq_none_iff.mp found) (Nat.not_le_of_lt less)
  | some node => exact absurd (lt_of_get? (h _ _ found)) (Nat.lt_irrefl _)

/-- An operand leads to the same node of a larger pool.  So operands that wait on the stack are
still valid when nodes have been added in the meantime. -/
theorem Operand.Within.extends {pool pool' : Pool} {x : Operand} (h : x.Within pool)
    (more : pool.Extends pool') : x.Within pool' :=
  fun i hi => Nat.lt_of_lt_of_le (h i hi) (Pool.size_le_of_extends more)

namespace Parse

open Schedule (Rules Reaches State Scheduler)

variable {registry : Registry} {c c' : Configuration}

/-- The pool is well-formed, and every operand on the stack leads to one of its nodes,
if to any. -/
structure Configuration.WellFormed (c : Configuration) : Prop where
  /-- The nodes made so far. -/
  pool : c.pool.WellFormed
  /-- The operands that wait for their operator. -/
  stack : ∀ x, Symbol.operand x ∈ c.stack → x.Within c.pool

namespace Configuration

theorem wellFormed_start (tokens : List Token) : (start tokens).WellFormed where
  pool := Pool.wellFormed_of_acyclic Pool.acyclic_empty
  stack := nofun

/-- To take a token leaves the pool alone.  Only reductions add nodes. -/
theorem pool_of_shift {token : Token} {rest : List Token} (h : c.shift token rest = .proceed c') :
    c'.pool = c.pool := by
  unfold shift at h
  repeat' split at h
  all_goals cases h
  all_goals rfl

/-- What waits below a reduction has waited before. -/
theorem mem_of_mem_below {stack : List Symbol} {r : Reduction} {symbol : Symbol}
    (found : reduction? stack = some r) (h : symbol ∈ r.below) : symbol ∈ stack := by
  unfold reduction? at found
  split at found
  · cases found
    exact .tail _ (.tail _ h)
  · cases found
    exact .tail _ (.tail _ (.tail _ h))
  · cases found
    exact .tail _ (.tail _ (.tail _ (.tail _ h)))
  · cases found

/-- The operands of a reduction have waited on the stack, all of them: a reduction makes up no
operand. -/
theorem mem_of_mem_operands {stack : List Symbol} {r : Reduction} {x : Operand}
    (found : reduction? stack = some r) (mem : x ∈ r.operands) : Symbol.operand x ∈ stack := by
  unfold reduction? at found
  split at found
  · cases found
    obtain rfl := List.mem_singleton.mp mem
    exact .head _
  · cases found
    simp only [List.mem_cons, List.not_mem_nil, or_false] at mem
    rcases mem with rfl | rfl
    · exact .tail _ (.tail _ (.head _))
    · exact .head _
  · cases found
    simp only [List.mem_cons, List.not_mem_nil, or_false] at mem
    rcases mem with rfl | rfl | rfl
    · exact .tail _ (.tail _ (.head _))
    · exact .tail _ (.head _)
    · exact .head _
  · cases found

/-- To reduce is to apply the operator, and to put its operand where it and its operands were. -/
theorem reduce_eq (registry : Registry) (c : Configuration) (r : Reduction) :
    c.reduce registry r =
      match applyOperator registry r.name r.operands c.pool with
      | .ok parsed => .proceed ⟨c.remaining, .operand parsed.root :: r.below, parsed.pool⟩
      | .error fault => c.fail fault := by
  unfold Configuration.reduce applyOperator Reduction.plain Node.signature
  dsimp only
  cases registry.find? ⟨r.name, r.operands.length⟩ with
  | none => rfl
  | some d =>
      dsimp only
      cases d.nodeFor c.pool ⟨r.name, r.operands⟩ with
      | error reason => rfl
      | ok node =>
          dsimp only
          split <;> rfl

/-- A symbol goes on a stack of which all operands have a property.  If the symbol is an operand,
it must have it, too. -/
theorem forall_of_push {P : Operand → Prop} {symbol : Symbol} {stack : List Symbol}
    (top : ∀ x, symbol = .operand x → P x) (waiting : ∀ x, Symbol.operand x ∈ stack → P x) :
    ∀ x, Symbol.operand x ∈ symbol :: stack → P x := by
  intro x hx
  rcases List.mem_cons.mp hx with same | below
  · exact top x same.symm
  · exact waiting x below

/-- A property of literals that braces do not take away stays when a token is taken.  So what is
said of all operands on a stack has to be checked for reductions only. -/
theorem forall_of_shift {P : Operand → Prop} (literals : ∀ text, P (.literal text))
    (braces : ∀ x, P x → P (braced x)) (waiting : ∀ x, Symbol.operand x ∈ c.stack → P x)
    {token : Token} {rest : List Token} (hs : c.shift token rest = .proceed c') :
    ∀ x, Symbol.operand x ∈ c'.stack → P x := by
  obtain ⟨remaining, stack, pool⟩ := c
  dsimp only at waiting
  cases token with
  | literal text =>
      cases hs
      refine forall_of_push (fun x same => ?_) waiting
      cases same
      exact literals text
  | operator name fixity =>
      cases hs
      exact forall_of_push nofun waiting
  | bracket b =>
      cases b with
      | openParen | openBrace =>
          cases hs
          exact forall_of_push nofun waiting
      | closeParen =>
          simp only [Configuration.shift] at hs
          split at hs
          · rename_i inner below
            cases hs
            refine forall_of_push (fun x same => ?_) fun x hx => waiting x (.tail _ (.tail _ hx))
            cases same
            exact waiting inner (.head _)
          · cases hs
      | closeBrace =>
          simp only [Configuration.shift] at hs
          split at hs
          · rename_i inner below
            cases hs
            refine forall_of_push (fun x same => ?_) fun x hx => waiting x (.tail _ (.tail _ hx))
            cases same
            exact braces inner (waiting inner (.head _))
          · cases hs

/-- To replace operands by the node that was made of them keeps a configuration well-formed, if
the pool accepts the node. -/
theorem WellFormed.replace {r : Reduction} {node : Node} (h : c.WellFormed)
    (found : reduction? c.stack = some r) (accepted : c.pool.accepts node) :
    (c.replace r.below node).WellFormed where
  pool := Pool.wellFormed_of_acyclic (h.pool.acyclic.push accepted)
  stack := by
    refine forall_of_push (fun x same => ?_) fun x waiting => ?_
    · -- The new operand is the node that has just been added.
      cases same
      intro i hi
      cases hi
      exact Pool.lt_of_get? (Pool.get?_push_size c.pool node)
    · have before := h.stack x (mem_of_mem_below found waiting)
      exact before.extends (Pool.extends_push c.pool node)

/-- So does taking a token, which pushes a literal or a bracket, or wraps an operand that was
there. -/
theorem WellFormed.shift {token : Token} {rest : List Token} (h : c.WellFormed)
    (hs : c.shift token rest = .proceed c') : c'.WellFormed where
  pool := by
    rw [pool_of_shift hs]
    exact h.pool
  stack := by
    rw [pool_of_shift hs]
    refine forall_of_shift (fun text => nofun) (fun x within i hi => ?_) h.stack hs
    -- Braces do not change what the operand leads to.
    rw [Phrase.reference?_braced] at hi
    exact within i hi

/-- The two sorts of actions that proceed.  Everything that is preserved by runs is shown for the
one and for the other. -/
theorem step_eq_proceed (h : c.step registry = .proceed c') :
    (∃ r, reduction? c.stack = some r ∧ c.reduce registry r = .proceed c') ∨
      ∃ token rest, c.remaining = token :: rest ∧ c.shift token rest = .proceed c' := by
  unfold step at h
  cases found : reduction? c.stack with
  | some r =>
      rw [found] at h
      exact .inl ⟨r, rfl, h⟩
  | none =>
      rw [found] at h
      dsimp only at h
      split at h
      · rename_i token rest left
        exact .inr ⟨token, rest, left, h⟩
      · unfold finish at h
        split at h <;> cases h

/-- **An action preserves well-formedness**, whatever the desugaring answers.  What it answers
with is accepted by the pool, or else the action fails and proceeds to nothing. -/
theorem WellFormed.step (h : c.WellFormed) (hs : c.step registry = .proceed c') :
    c'.WellFormed := by
  rcases step_eq_proceed hs with ⟨r, found, reduced⟩ | ⟨token, rest, -, shifted⟩
  · obtain ⟨node, accepted, rfl⟩ := exists_node_of_reduce reduced
    exact h.replace found accepted
  · exact h.shift shifted

/-- **An action changes no node** that was made before. -/
theorem extends_of_step (hs : c.step registry = .proceed c') : c.pool.Extends c'.pool := by
  rcases step_eq_proceed hs with ⟨r, -, reduced⟩ | ⟨token, rest, -, shifted⟩
  · obtain ⟨node, -, rfl⟩ := exists_node_of_reduce reduced
    exact Pool.extends_push c.pool node
  · rw [pool_of_shift shifted]
    exact .refl c.pool

/-- An action that fails shows what it found, and its fault is not one of the scheduler's. -/
theorem snapshot_of_step_eq_fail {e : ParseError} (h : c.step registry = .fail e) :
    (∀ fault, e.fault ≠ .stopped fault) ∧ e.snapshot = c.snapshot := by
  unfold step reduce shift finish at h
  repeat' split at h
  all_goals cases h
  all_goals exact ⟨nofun, rfl⟩

end Configuration

/-! ### Whole runs -/

/-- What stays the same during a run of the parser. -/
def rules (registry : Registry) (budget : Nat) : Rules Unit Configuration Parsed ParseError :=
  ⟨fun _ => Configuration.step registry, budget, none⟩

/-- A configuration is well-formed and has all nodes of an earlier one. -/
def After (pool : Pool) (c : Configuration) : Prop :=
  c.WellFormed ∧ pool.Extends c.pool

/-- An action leads from a configuration after some pool to another one after it: it is
well-formed, and has the nodes of that pool. -/
theorem After.step {pool : Pool} (h : After pool c) (hs : c.step registry = .proceed c') :
    After pool c' :=
  ⟨h.1.step hs, h.2.trans (Configuration.extends_of_step hs)⟩

variable {budget n : Nat} {state later : State Unit Configuration Parsed ParseError}

/-- So do any number of actions, wherever batches begin and end in between. -/
theorem After.reaches {pool : Pool} (h : After pool c) (same : state.tasks = alone c)
    (reached : Reaches (rules registry budget) state later) :
    ∃ c', later.tasks = alone c' ∧ After pool c' := by
  obtain ⟨n, leads⟩ := reached.leads
  rw [same] at leads
  exact exists_alone_of_leads (fun _ _ h hs => h.step hs) leads h

/-- What parsing answers, seen from a configuration that it gets to. -/
def Concludes (pool : Pool) : Except ParseError Parsed → Prop
  | .ok parsed =>
      pool.Extends parsed.pool ∧ parsed.pool.WellFormed ∧ parsed.root.Within parsed.pool
  | .error e => ((∀ fault, e.fault ≠ .stopped fault) → pool.Extends e.snapshot.pool) ∧
      e.snapshot.pool.WellFormed

/-- A run that was stopped shows nothing, and so there is nothing in it that could lead astray. -/
theorem concludes_stopped (pool : Pool) (fault : Schedule.Fault) :
    Concludes pool (.error (ParseError.ofStop (.fault fault))) :=
  ⟨fun named => absurd rfl (named fault), Pool.wellFormed_of_acyclic Pool.acyclic_empty⟩

/-- The last action hands over the pool that it found, as part of the result or in the snapshot of
its error. -/
theorem After.concludes {pool : Pool} {result : Except (Schedule.Stop ParseError) Parsed}
    (h : After pool c) (ends : Ends registry n c result) :
    Concludes pool (result.mapError ParseError.ofStop) := by
  obtain ⟨last, ⟨formed, more⟩, ⟨parsed, hs, rfl⟩ | ⟨e, hs, rfl⟩⟩ :=
    exists_last_of_ends (fun _ _ h hs => h.step hs) ends h
  · obtain rfl := Configuration.eq_of_step_eq_done hs
    exact ⟨more, formed.pool, formed.stack _ (.head _)⟩
  · obtain ⟨-, shown⟩ := Configuration.snapshot_of_step_eq_fail hs
    have same : e.snapshot.pool = last.pool := congrArg ParseSnapshot.pool shown
    have found : pool.Extends e.snapshot.pool ∧ e.snapshot.pool.WellFormed := by
      rw [same]
      exact ⟨more, formed.pool⟩
    exact ⟨fun _ => found.1, found.2⟩

/-- What parsing answers extends the pool of every configuration on its way. -/
theorem After.concludes_parseWith (s : Scheduler) {tokens : List Token} (h : After c.pool c)
    (leads : Leads registry n (.start tokens) c) :
    Concludes c.pool (registry.parseWith s tokens) := by
  unfold Registry.parseWith
  rcases s.ends_of_runAlone (fun _ => Configuration.step registry) () (.start tokens) with
    ⟨m, depth, result, -, ends, run⟩ | ⟨last, depth, -, run⟩
  · rw [run]
    obtain ⟨k, -, rest⟩ := ends.after leads
    exact h.concludes rest
  · rw [run]
    exact concludes_stopped c.pool _

/-- **The pool is acyclic, whatever the desugarings do.**  In every state that
parsing reaches, nodes refer to earlier nodes only, each signature states the
number of operands, the operands on the stack lead to nodes of the pool, and all
later pools have the same nodes under the same indices.  So has the result, which
leads to a node of its pool, and so has the snapshot of an error; if the budget
was used up, that snapshot is empty. -/
theorem reaches_wellFormed (registry : Registry) (s : Scheduler) (tokens : List Token) :
    (∀ state, Reaches (rules registry s.budget) (.start (alone (.start tokens))) state →
      ∃ c, state.tasks = alone c ∧ c.WellFormed ∧
        (∀ later, Reaches (rules registry s.budget) state later →
          ∃ c', later.tasks = alone c' ∧ c.pool.Extends c'.pool) ∧
        match registry.parseWith s tokens with
        | .ok parsed => c.pool.Extends parsed.pool
        | .error e =>
            (∀ fault, e.fault ≠ .stopped fault) → c.pool.Extends e.snapshot.pool) ∧
    match registry.parseWith s tokens with
    | .ok parsed => parsed.pool.WellFormed ∧ parsed.root.Within parsed.pool
    | .error e => e.snapshot.pool.WellFormed := by
  have start : After .empty (.start tokens) := ⟨Configuration.wellFormed_start tokens, .refl _⟩
  constructor
  · intro state reached
    obtain ⟨n, leads⟩ := reached.leads
    obtain ⟨c, same, formed, -⟩ := start.reaches rfl reached
    -- From each state on, everything comes after the pool of that state.
    have here : After c.pool c := ⟨formed, .refl _⟩
    refine ⟨c, same, formed, ?_, ?_⟩
    · intro later further
      obtain ⟨c', same', -, more⟩ := here.reaches same further
      exact ⟨c', same', more⟩
    · rw [same] at leads
      have concludes := here.concludes_parseWith s leads
      cases parsed : registry.parseWith s tokens with
      | ok p =>
          rw [parsed] at concludes
          exact concludes.1
      | error e =>
          rw [parsed] at concludes
          exact concludes.1
  · have here : Leads registry 0 (.start tokens) (.start tokens) := .refl _
    have concludes := start.concludes_parseWith s here
    cases parsed : registry.parseWith s tokens with
    | ok p =>
        rw [parsed] at concludes
        exact concludes.2
    | error e =>
        rw [parsed] at concludes
        exact concludes.2

end Parse

end RuleEngine
