import RuleEngine.Proofs.Parse.Fold
import RuleEngine.Proofs.Registry.Rules

/-!
# The nodes that the standard desugarings make

Most operators make the node that is written.  Four operators let their second
operand wait.  The three spellings of conditionals make one node; two of them find
its operands in the nodes of their markers, which stay in the pool.

A desugaring is a function of the pool and of the node that is written.  What the
standard ones do with these is put into a relation between operators, operands and nodes
here, so that nothing that is said about nodes later has to look into a desugaring, nor
to know how operators are looked up.

## Main definitions

* `Standard.Made` - the node that stands for an operator and its operands.

## Main statements

* `Standard.made_library` - the standard library makes no other nodes.
* `Standard.made_of_applyOperator` - what an operator adds to the pool.
-/

namespace RuleEngine

namespace Standard

open Parse (Parsed applyOperator)

/-- The node that stands for an operator of this name and these operands. -/
inductive Made (pool : Pool) : String → List Operand → Node → Prop
  /-- The node that is written. -/
  | plain {name operands} : Made pool name operands ⟨name, operands⟩
  /-- The second operand waits. -/
  | deferred {name word x y} : word = "&&" ∨ word = "||" →
      Made pool name [x, y] ⟨word, [x, .skip y]⟩
  /-- The branches of a conditional follow on the condition. -/
  | front {c x y} : Made pool "?:" [c, x, y] (conditional c x y)
  /-- They are in the nodes of two markers. -/
  | marked {c x y i j} : pool.get? i = some ⟨"then", [x]⟩ → pool.get? j = some ⟨"else", [y]⟩ →
      Made pool "if" [c, .node i, .node j] (conditional c x y)
  /-- The first one is in a node with the condition. -/
  | joined {c x y i} : pool.get? i = some ⟨"?", [c, x]⟩ →
      Made pool ":" [.node i, y] (conditional c x y)

variable {pool : Pool} {name : String} {operands : List Operand} {node : Node} {x y : Operand}

/-! ### Single desugarings -/

/-- Connectives, under their names or as signs, make a node in which the second operand waits. -/
theorem made_deferSecondAs {word : String} (standard : word = "&&" ∨ word = "||")
    (two : operands.length = 2) (h : deferSecondAs word pool ⟨name, operands⟩ = .ok node) :
    Made pool name operands node := by
  match operands, two with
  | [x, y], _ =>
      cases h
      exact .deferred standard

/-- A conditional with the sign in front is made from its three operands. -/
theorem made_fromPlain (h : fromPlain pool ⟨"?:", operands⟩ = .ok node) :
    Made pool "?:" operands node := by
  unfold fromPlain at h
  split at h
  · rename_i c x y same
    cases h
    obtain rfl : operands = [c, x, y] := same
    exact .front
  · cases h

/-- A marker is found in the node that an operand points at.  An operand that is braced points at
none. -/
theorem exists_of_marked? {marker : String} (h : marked? pool marker x = some y) :
    ∃ i, x = .node i ∧ pool.get? i = some ⟨marker, [y]⟩ := by
  unfold marked? at h
  split at h
  · rename_i name inner found
    split at h
    · rename_i named
      cases h
      subst named
      cases x with
      | node i => exact ⟨i, rfl, found⟩
      | literal text => cases found
      | block inner => cases found
      | skip inner => cases found
    · cases h
  · cases h

/-- A conditional in words is made from its condition and from what the two markers hold. -/
theorem made_fromMarked (h : fromMarked pool ⟨"if", operands⟩ = .ok node) :
    Made pool "if" operands node := by
  unfold fromMarked at h
  split at h
  · rename_i c first second same
    obtain rfl : operands = [c, first, second] := same
    split at h
    · cases h
    · rename_i x foundFirst
      split at h
      · cases h
      · rename_i y foundSecond
        cases h
        obtain ⟨i, rfl, first⟩ := exists_of_marked? foundFirst
        obtain ⟨j, rfl, second⟩ := exists_of_marked? foundSecond
        exact .marked first second
  · cases h

/-- A conditional in signs is made from what its marker holds, and from the second branch. -/
theorem made_fromJoined (h : fromJoined pool ⟨":", operands⟩ = .ok node) :
    Made pool ":" operands node := by
  unfold fromJoined at h
  split at h
  · rename_i joined y same
    obtain rfl : operands = [joined, y] := same
    split at h
    · rename_i name c x found
      split at h
      · rename_i named
        cases h
        subst named
        cases joined with
        | node i => exact .joined found
        | literal text => cases found
        | block inner => cases found
        | skip inner => cases found
      · cases h
    · cases h
  · cases h

/-! ### The library -/

/-- What is registered makes only the nodes described here. -/
def Makes (r : Registration) : Prop :=
  ∀ d, r.definition? = some d → ∀ pool operands node, operands.length = d.signature.arity →
    d.nodeFor pool ⟨d.signature.name, operands⟩ = .ok node →
    Made pool d.signature.name operands node

/-- An operator without a desugaring makes the node that is written. -/
theorem makes_plain {fixity : Fixity} {body? : Option Body} :
    Makes (.operator name fixity body? none) := by
  intro d hd pool operands node _ made
  obtain ⟨body, -, rfl⟩ := Option.map_eq_some_iff.mp hd
  cases made
  exact .plain

/-- A function is no operator, so it makes no node at all. -/
theorem makes_function {arity : Nat} {body : Body} : Makes (.function name arity body) := by
  intro d hd pool operands node _ made
  cases hd
  cases made
  exact .plain

theorem makes_operator {fixity : Fixity} {body? : Option Body} {desugar : Desugaring}
    (h : ∀ pool operands node, operands.length = fixity.arity →
      desugar pool ⟨name, operands⟩ = .ok node → Made pool name operands node) :
    Makes (.operator name fixity body? (some desugar)) := by
  intro d hd pool operands node arity made
  obtain ⟨body, -, rfl⟩ := Option.map_eq_some_iff.mp hd
  exact h pool operands node arity made

/-- **The standard library makes no other nodes.**  There are as many cases as entries, and each
is one of the three above. -/
theorem made_library : ∀ r ∈ library, Makes r := by
  have truths : ∀ r ∈ truthOperations, Makes r := by
    simp only [truthOperations, List.forall_mem_cons]
    have conjunctions {name : String} : ∀ pool operands node, operands.length = 2 →
        deferSecondAs "&&" pool ⟨name, operands⟩ = .ok node → Made pool name operands node :=
      fun _ _ _ => made_deferSecondAs (.inl rfl)
    have disjunctions {name : String} : ∀ pool operands node, operands.length = 2 →
        deferSecondAs "||" pool ⟨name, operands⟩ = .ok node → Made pool name operands node :=
      fun _ _ _ => made_deferSecondAs (.inr rfl)
    exact ⟨makes_plain, makes_plain, makes_plain, makes_plain, makes_operator conjunctions,
      makes_operator disjunctions, makes_operator conjunctions, makes_operator disjunctions,
      makes_function, nofun⟩
  have conditionals : ∀ r ∈ conditionalOperations, Makes r := by
    simp only [conditionalOperations, List.forall_mem_cons]
    exact ⟨makes_operator fun _ _ _ _ => made_fromMarked, makes_plain, makes_plain, makes_plain,
      makes_operator fun _ _ _ _ => made_fromJoined,
      makes_operator fun _ _ _ _ => made_fromPlain, makes_plain, nofun⟩
  have lookups : ∀ r ∈ lookupOperations, Makes r := by
    simp only [lookupOperations, List.forall_mem_cons]
    exact ⟨makes_plain, makes_plain, makes_plain, makes_plain, nofun⟩
  have sequences : ∀ r ∈ sequenceFunctions, Makes r := by
    simp only [sequenceFunctions, List.forall_mem_cons]
    exact ⟨makes_function, makes_function, makes_function, nofun⟩
  have applications : ∀ r ∈ applicationOperations, Makes r := by
    simp only [applicationOperations, List.forall_mem_cons]
    exact ⟨makes_plain, makes_plain, makes_plain, makes_plain, makes_plain, makes_plain, nofun⟩
  have traversals : ∀ r ∈ traversalOperations, Makes r := by
    simp only [traversalOperations, List.forall_mem_cons]
    exact ⟨makes_plain, makes_plain, makes_plain, makes_plain, nofun⟩
  simp only [library, List.forall_mem_append]
  exact ⟨⟨⟨⟨⟨truths, conditionals⟩, lookups⟩, sequences⟩, applications⟩, traversals⟩

/-- **What an operator adds to the pool**: one node, of one of the known shapes, which the pool
accepts.  Invariants of pools are shown by going through these shapes. -/
theorem made_of_applyOperator {parsed : Parsed}
    (h : applyOperator .standard name operands pool = .ok parsed) :
    ∃ node, Made pool name operands node ∧ pool.accepts node ∧
      parsed = ⟨.node pool.size, pool.push node⟩ := by
  obtain ⟨d, node, found, made, accepted, rfl⟩ := Parse.applyOperator_eq_ok_iff.mp h
  obtain ⟨r, mem, hd⟩ := Registry.exists_registration build_library (Table.mem_of_find? found)
  have signature := Registry.signature_of_find? found
  have named : d.signature.name = name := congrArg Signature.name signature
  have arity : operands.length = d.signature.arity := (congrArg Signature.arity signature).symm
  refine ⟨node, ?_, accepted, rfl⟩
  rw [← named] at made ⊢
  exact made_library r mem d hd pool operands node arity made

end Standard

end RuleEngine
