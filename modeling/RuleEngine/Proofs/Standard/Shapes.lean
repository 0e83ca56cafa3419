import RuleEngine.Proofs.Parse.Reachable
import RuleEngine.Proofs.Standard.Desugaring

/-!
# How deep operands are nested

Braces and deferrals are put around operands, and both could pile up, one around the
other.  In the standard language they do not, however deep the braces and the conditionals
of an expression go.  On the stack there are at most braces around a literal or a node,
because braces around braces add nothing; and a node defers at most what has been on the
stack.

A desugaring could defer an operand twice if it took it from a node where it is deferred
already.  The only nodes that are looked into are those of the markers `then`, `else` and
`?`.  They are made as they are written: markers have no desugaring, and no desugaring
makes a node by one of these names.

## Main definitions

* `Operand.Flat`, `Operand.Shallow` - the shapes of operands on the stack and in nodes.
* `Operand.Unnested` - the constructions that there are not.
* `Parse.Bounded` - all operands of a state of the parser have these shapes.

## Main statements

* `Operand.Shallow.unnested` - the shapes exclude these constructions.
* `Standard.shapes_of_made` - operands that are flat make a node with the shapes.
* `Parse.Configuration.Shaped.step` - every action preserves them.
* `Parse.reaches_bounded` - so they hold of all states that parsing reaches.
-/

namespace RuleEngine

/-! ### Shapes -/

namespace Operand

/-- A literal or a node. -/
inductive Atomic : Operand → Prop
  | literal (text : String) : Atomic (.literal text)
  | node (i : Nat) : Atomic (.node i)

/-- A literal, a node, or braces directly around one of them. -/
inductive Flat : Operand → Prop
  | atom {x : Operand} : x.Atomic → Flat x
  | braces {x : Operand} : x.Atomic → Flat (.block x)

/-- A flat operand, or one deferral around a flat operand. -/
inductive Shallow : Operand → Prop
  | flat {x : Operand} : x.Flat → Shallow x
  | deferred {x : Operand} : x.Flat → Shallow (.skip x)

/-- The operand and everything inside of it, from the outside. -/
def parts : Operand → List Operand
  | literal text => [literal text]
  | node i => [node i]
  | block inner => block inner :: inner.parts
  | skip inner => skip inner :: inner.parts

/-- No braces or deferral directly in braces, and no deferral in a deferral. -/
structure Unnested (x : Operand) : Prop where
  /-- In braces there is neither of them. -/
  block : ∀ inner, .block inner ∈ x.parts → ∀ y, inner ≠ .block y ∧ inner ≠ .skip y
  /-- In a deferral there is none, however deep. -/
  skip : ∀ inner, .skip inner ∈ x.parts → ∀ y, .skip y ∉ inner.parts

variable {x : Operand}

theorem Atomic.parts_eq (h : x.Atomic) : x.parts = [x] := by
  cases h <;> rfl

theorem Atomic.ne (h : x.Atomic) (y : Operand) : x ≠ .block y ∧ x ≠ .skip y := by
  cases h <;> exact ⟨nofun, nofun⟩

/-- Nothing is deferred in an operand on the stack.  Deferrals are made by desugarings, and only
in nodes. -/
theorem Flat.skip_not_mem (h : x.Flat) (y : Operand) : .skip y ∉ x.parts := by
  cases h with
  | atom atomic =>
      rw [atomic.parts_eq, List.mem_singleton]
      exact Ne.symm (atomic.ne y).2
  | braces atomic =>
      rw [parts, atomic.parts_eq]
      have other := (atomic.ne y).2
      simp [Ne.symm other]

/-- Braces are around atoms, so there are no braces inside of braces. -/
theorem Flat.atomic_of_block_mem (h : x.Flat) {inner : Operand} (mem : .block inner ∈ x.parts) :
    inner.Atomic := by
  cases h with
  | atom atomic =>
      rw [atomic.parts_eq, List.mem_singleton] at mem
      exact absurd mem.symm (atomic.ne inner).1
  | braces atomic =>
      rw [parts, atomic.parts_eq, List.mem_cons, List.mem_singleton] at mem
      rcases mem with same | inside
      · cases same
        exact atomic
      · exact absurd inside.symm (atomic.ne inner).1

/-- **Shallow operands have nothing nested in them**: no braces in braces, no deferral in a
deferral, and no deferral in braces. -/
theorem Shallow.unnested (h : x.Shallow) : x.Unnested := by
  cases h with
  | flat flat =>
      exact ⟨fun inner mem => (flat.atomic_of_block_mem mem).ne,
        fun inner mem => absurd mem (flat.skip_not_mem inner)⟩
  | deferred flat =>
      refine ⟨fun inner mem => ?_, fun inner mem => ?_⟩
      · rw [parts, List.mem_cons] at mem
        rcases mem with same | inside
        · cases same
        · exact (flat.atomic_of_block_mem inside).ne
      · rw [parts, List.mem_cons] at mem
        rcases mem with same | inside
        · cases same
          exact flat.skip_not_mem
        · exact absurd inside (flat.skip_not_mem inner)

/-- There are at most two constructions around the atom. -/
theorem Shallow.length_parts_le (h : x.Shallow) : x.parts.length ≤ 3 := by
  have flat_le {y : Operand} (flat : y.Flat) : y.parts.length ≤ 2 := by
    cases flat with
    | atom atomic => simp [atomic.parts_eq]
    | braces atomic => simp [parts, atomic.parts_eq]
  cases h with
  | flat flat => exact Nat.le_succ_of_le (flat_le flat)
  | deferred flat => exact Nat.succ_le_succ (flat_le flat)

/-- Braces leave a flat operand flat. -/
theorem Flat.braced (h : x.Flat) : (Parse.braced x).Flat := by
  cases h with
  | atom atomic =>
      cases atomic with
      | literal text => exact .braces (.literal text)
      | node i => exact .braces (.node i)
  | braces atomic => exact .braces atomic

end Operand

/-! ### The nodes that operators make -/

/-- The operand belongs to a node of the pool. -/
def Pool.Uses (pool : Pool) (x : Operand) : Prop :=
  ∃ i node, pool.get? i = some node ∧ x ∈ node.operands

namespace Standard

/-- The names of the nodes that are looked into. -/
def markers : List String :=
  ["then", "else", "?"]

/-- The operands of the node are shallow, and flat if the node may be looked into. -/
structure ShapedNode (node : Node) : Prop where
  /-- All operands. -/
  shallow : ∀ x ∈ node.operands, x.Shallow
  /-- Those of markers. -/
  flat : node.name ∈ markers → ∀ x ∈ node.operands, x.Flat

/-- All nodes of the pool have the shapes. -/
def ShapedPool (pool : Pool) : Prop :=
  ∀ i node, pool.get? i = some node → ShapedNode node

/-- A pool keeps its shapes when a node that has them is added. -/
theorem ShapedPool.push {pool : Pool} {node : Node} (h : ShapedPool pool)
    (shaped : ShapedNode node) : ShapedPool (pool.push node) := by
  intro i other found
  rw [Pool.get?_push] at found
  split at found
  · cases found
    exact shaped
  · exact h i other found

/-- A conditional of flat operands has the shapes, since it defers each branch once. -/
theorem shaped_conditional {c x y : Operand} (condition : c.Flat) (first : x.Flat)
    (second : y.Flat) : ShapedNode (conditional c x y) where
  shallow := by
    simp only [conditional, List.forall_mem_cons]
    exact ⟨.flat condition, .deferred first, .deferred second, nofun⟩
  flat named := absurd named (by simp [conditional, markers])

/-- **Flat operands make a node with the shapes**, also where a desugaring takes its operands from
the nodes of markers: these were made as they were written, so their operands are flat. -/
theorem shapes_of_made {pool : Pool} {name : String} {operands : List Operand} {node : Node}
    (h : ShapedPool pool) (flat : ∀ x ∈ operands, x.Flat) (made : Made pool name operands node) :
    ShapedNode node := by
  cases made with
  | plain => exact ⟨fun x mem => .flat (flat x mem), fun _ => flat⟩
  | deferred word =>
      simp only [List.forall_mem_cons] at flat
      obtain ⟨first, second, -⟩ := flat
      refine ⟨?_, fun named => ?_⟩
      · simp only [List.forall_mem_cons]
        exact ⟨.flat first, .deferred second, nofun⟩
      · rcases word with rfl | rfl <;> simp [markers] at named
  | front =>
      simp only [List.forall_mem_cons] at flat
      obtain ⟨condition, first, second, -⟩ := flat
      exact shaped_conditional condition first second
  | marked foundFirst foundSecond =>
      simp only [List.forall_mem_cons] at flat
      have first := (h _ _ foundFirst).flat (by simp [markers])
      have second := (h _ _ foundSecond).flat (by simp [markers])
      exact shaped_conditional flat.1 (first _ List.mem_cons_self) (second _ List.mem_cons_self)
  | joined found =>
      simp only [List.forall_mem_cons] at flat
      have inner := (h _ _ found).flat (by simp [markers])
      simp only [List.forall_mem_cons] at inner
      exact shaped_conditional inner.1 inner.2.1 flat.2.1

end Standard

/-! ### Runs of the parser -/

namespace Parse

open Schedule (Rules Reaches State Scheduler)
open Standard (ShapedNode ShapedPool)

/-- The operand, if there is one. -/
def Symbol.operand? : Symbol → Option Operand
  | operator _ _ => none
  | operand x => some x
  | openParen => none
  | openBrace => none

/-- What is outside of all nodes is flat, what is in nodes is shallow, and nothing
is nested. -/
structure Bounded (outside : List Operand) (pool : Pool) : Prop where
  /-- Operands on the stack, or the whole expression. -/
  flat : ∀ x ∈ outside, x.Flat
  /-- Operands of nodes. -/
  shallow : ∀ x, pool.Uses x → x.Shallow
  /-- All of them. -/
  unnested : ∀ x, x ∈ outside ∨ pool.Uses x → x.Unnested ∧ x.parts.length ≤ 3

/-- What every action preserves. -/
structure Configuration.Shaped (c : Configuration) : Prop where
  /-- The stack. -/
  stack : ∀ x, Symbol.operand x ∈ c.stack → x.Flat
  /-- The nodes. -/
  pool : ShapedPool c.pool

/-- What actions preserve is enough for the bounds: shallow operands are unnested, and they have
few parts. -/
theorem bounded_of_shaped {outside : List Operand} {pool : Pool} (flat : ∀ x ∈ outside, x.Flat)
    (shaped : ShapedPool pool) : Bounded outside pool := by
  have shallow : ∀ x, pool.Uses x → x.Shallow := by
    rintro x ⟨i, node, found, mem⟩
    exact (shaped i node found).shallow x mem
  refine ⟨flat, shallow, fun x used => ?_⟩
  have low : x.Shallow := by
    rcases used with mem | used
    · exact .flat (flat x mem)
    · exact shallow x used
  exact ⟨low.unnested, low.length_parts_le⟩

namespace Configuration

variable {c c' : Configuration}

theorem shaped_start (tokens : List Token) : (start tokens).Shaped where
  stack := nofun
  pool := nofun

theorem Shaped.bounded (h : c.Shaped) : Bounded (c.stack.filterMap Symbol.operand?) c.pool := by
  refine bounded_of_shaped (fun x mem => ?_) h.pool
  obtain ⟨symbol, waiting, same⟩ := List.mem_filterMap.mp mem
  cases symbol with
  | operand y =>
      cases same
      exact h.stack _ waiting
  | operator name fixity => cases same
  | openParen => cases same
  | openBrace => cases same

/-- **Every action preserves the shapes.**  Tokens that are taken push literals or close braces,
and reductions push a node; what they add to the pool is one of the nodes described above. -/
theorem Shaped.step (h : c.Shaped) (hs : c.step .standard = .proceed c') : c'.Shaped := by
  rcases step_eq_proceed hs with ⟨r, found, reduced⟩ | ⟨token, rest, -, shifted⟩
  · have flat : ∀ x ∈ r.operands, x.Flat :=
      fun x mem => h.stack x (mem_of_mem_operands found mem)
    rw [reduce_eq] at reduced
    cases applied : applyOperator .standard r.name r.operands c.pool with
    | error fault =>
        rw [applied] at reduced
        cases reduced
    | ok parsed =>
        rw [applied] at reduced
        cases reduced
        obtain ⟨node, made, -, rfl⟩ := Standard.made_of_applyOperator applied
        refine ⟨forall_of_push (fun x same => ?_) fun x waiting => ?_,
          h.pool.push (Standard.shapes_of_made h.pool flat made)⟩
        · cases same
          exact .atom (.node _)
        · exact h.stack x (mem_of_mem_below found waiting)
  · refine ⟨forall_of_shift (fun text => .atom (.literal text)) (fun x => .braced) h.stack shifted,
      ?_⟩
    rw [pool_of_shift shifted]
    exact h.pool

end Configuration

/-- **Operands are not nested deeply.**  In every state that the parser reaches in the
standard language, whatever the tokens are, the operands on the stack are flat and those of
nodes are shallow.  So are the result of parsing and the snapshot of its error. -/
theorem reaches_bounded (s : Scheduler) (tokens : List Token) :
    (∀ state, Reaches (rules .standard s.budget) (.start (alone (.start tokens))) state →
      ∃ c, state.tasks = alone c ∧ Bounded (c.stack.filterMap Symbol.operand?) c.pool) ∧
    match Registry.standard.parseWith s tokens with
    | .ok parsed => Bounded [parsed.root] parsed.pool
    | .error e => Bounded [] e.snapshot.pool := by
  have start : (Configuration.start tokens).Shaped := Configuration.shaped_start tokens
  have keeps (c c' : Configuration) (shaped : c.Shaped) (hs : c.step .standard = .proceed c') :
      c'.Shaped := shaped.step hs
  constructor
  · intro state reached
    obtain ⟨n, leads⟩ := reached.leads
    obtain ⟨c, same, shaped⟩ := exists_alone_of_leads keeps leads start
    exact ⟨c, same, shaped.bounded⟩
  · have ended := exists_last_of_parseWith keeps s start
    cases parsed : Registry.standard.parseWith s tokens with
    | ok p =>
        rw [parsed] at ended
        obtain ⟨last, shaped, done⟩ := ended
        obtain rfl := Configuration.eq_of_step_eq_done done
        exact bounded_of_shaped (by simpa using shaped.stack p.root (.head _)) shaped.pool
    | error e =>
        rw [parsed] at ended
        rcases ended with ⟨fault, rfl⟩ | ⟨last, shaped, failed⟩
        · exact bounded_of_shaped nofun (Configuration.shaped_start tokens).pool
        · obtain ⟨-, shown⟩ := Configuration.snapshot_of_step_eq_fail failed
          have same : e.snapshot.pool = last.pool := congrArg ParseSnapshot.pool shown
          refine bounded_of_shaped nofun ?_
          rw [same]
          exact shaped.pool

end Parse

end RuleEngine
