import RuleEngine.Parse.Run

/-!
# The grammar of expressions

Expressions are made of atoms:

* an atom is a literal, an expression in parentheses or braces, a `prefix1`
  operator with an atom, or a `prefix3` operator with two expressions and an
  atom;
* an expression is an atom, or an expression, an `infix2` operator and an atom.

So all infix operators are on one level and group to the left, and the last
operand of every operator is an atom.  There are no precedences.

That derivations are unique is shown by an induction on the number of tokens.  An atom
tells by its first token of which kind it is, and an expression is over where no infix
operator follows.  Expressions are taken apart into their atoms before they are compared,
since a derivation that groups to the left begins with its deepest part.

## Main definitions

* `Phrase` - the derivations of the two categories.
* `Phrase.tokens` - the tokens that a derivation derives.
* `applyOperator` - the node of an operator and its operands, added to the pool.
* `Phrase.build` - the operand of a derivation: its operators are applied in
  post-order, operands from left to right and then the operator itself.

## Main statements

* `tokens_injective` - tokens have at most one derivation as an expression.
-/

namespace RuleEngine.Parse

/-- What a phrase is. -/
inductive Category
  /-- An operand of any operator. -/
  | atom
  /-- Anything that may stand in brackets. -/
  | expression
  deriving DecidableEq, Repr

/-- The derivations of the grammar. -/
inductive Phrase : Category → Type
  /-- A literal. -/
  | literal (text : String) : Phrase .atom
  /-- An expression in parentheses. -/
  | paren (inner : Phrase .expression) : Phrase .atom
  /-- An expression in braces. -/
  | brace (inner : Phrase .expression) : Phrase .atom
  /-- An operator before one operand. -/
  | prefix1 (name : String) (x : Phrase .atom) : Phrase .atom
  /-- An operator before three operands. -/
  | prefix3 (name : String) (x y : Phrase .expression) (z : Phrase .atom) : Phrase .atom
  /-- An atom alone. -/
  | single (x : Phrase .atom) : Phrase .expression
  /-- An operator between two operands. -/
  | infix2 (x : Phrase .expression) (name : String) (y : Phrase .atom) : Phrase .expression

/-- The node of an operator and its operands, added to the pool.  The operator
has to be registered for so many operands, its desugaring has to make a node,
and the node may refer to nodes of the pool only. -/
def applyOperator (registry : Registry) (name : String) (operands : List Operand)
    (pool : Pool) : Except ParseFault Parsed :=
  match registry.find? ⟨name, operands.length⟩ with
  | none => .error (.noOperator name operands.length)
  | some d =>
    match d.nodeFor pool ⟨name, operands⟩ with
    | .error reason => .error (.rejected reason)
    | .ok node =>
      if pool.accepts node then .ok ⟨.node pool.size, pool.push node⟩
      else .error (.danglingNode name)

namespace Phrase

/-- The tokens that are derived. -/
def tokens : {c : Category} → Phrase c → List Token
  | _, literal text => [.literal text]
  | _, paren inner => .bracket .openParen :: (inner.tokens ++ [.bracket .closeParen])
  | _, brace inner => .bracket .openBrace :: (inner.tokens ++ [.bracket .closeBrace])
  | _, prefix1 name x => .operator name .prefix1 :: x.tokens
  | _, prefix3 name x y z => .operator name .prefix3 :: (x.tokens ++ (y.tokens ++ z.tokens))
  | _, single x => x.tokens
  | _, infix2 x name y => x.tokens ++ .operator name .infix2 :: y.tokens

/-- The operand of a derivation and the pool with all its nodes, which come
after those of `pool`, or the fault of the first operator that cannot be
applied. -/
def build (registry : Registry) : {c : Category} → Phrase c → Pool → Except ParseFault Parsed
  | _, literal text, pool => .ok ⟨.literal text, pool⟩
  | _, paren inner, pool => inner.build registry pool
  | _, brace inner, pool => do
    let inner ← inner.build registry pool
    return ⟨braced inner.root, inner.pool⟩
  | _, prefix1 name x, pool => do
    let x ← x.build registry pool
    applyOperator registry name [x.root] x.pool
  | _, prefix3 name x y z, pool => do
    let x ← x.build registry pool
    let y ← y.build registry x.pool
    let z ← z.build registry y.pool
    applyOperator registry name [x.root, y.root, z.root] z.pool
  | _, single x, pool => x.build registry pool
  | _, infix2 x name y, pool => do
    let x ← x.build registry pool
    let y ← y.build registry x.pool
    applyOperator registry name [x.root, y.root] y.pool

/-! ### First tokens -/

/-- Whether the first of some tokens is an infix operator. -/
def startsInfix : List Token → Prop
  | .operator _ .infix2 :: _ => True
  | _ => False

/-- No phrase is derived from nothing.  The atoms that are compared below are therefore shorter
than what they are part of. -/
theorem tokens_ne_nil {c : Category} (d : Phrase c) : d.tokens ≠ [] := by
  induction d with
  | single x ih => exact ih
  | infix2 x name y => simp [tokens]
  | _ => simp [tokens]

/-- No phrase starts with an infix operator.  So an expression that is followed by another phrase
is over where that phrase begins, which is how the operands of a `prefix3` operator are told
apart. -/
theorem not_startsInfix {c : Category} (d : Phrase c) (rest : List Token) :
    ¬startsInfix (d.tokens ++ rest) := by
  induction d generalizing rest with
  | single x ih => exact ih rest
  | infix2 x name y ihx _ =>
      rw [tokens, List.append_assoc]
      exact ihx _
  | _ => exact id

/-! ### Derivations are unique

An expression is an atom followed by pairs of an infix operator and an atom.
Read from the left, each atom determines where it ends; the pairs go on as long
as there are infix operators, none of which may follow on the whole. -/

/-- An expression continued by operators and atoms. -/
def extend (x : Phrase .expression) (pairs : List (String × Phrase .atom)) :
    Phrase .expression :=
  pairs.foldl (fun x pair => infix2 x pair.1 pair.2) x

/-- The tokens of operators and atoms. -/
def pairTokens (pairs : List (String × Phrase .atom)) : List Token :=
  pairs.flatMap fun pair => .operator pair.1 .infix2 :: pair.2.tokens

/-- Operators and atoms that are appended to an expression are appended to its tokens. -/
theorem tokens_extend (x : Phrase .expression) (pairs : List (String × Phrase .atom)) :
    (x.extend pairs).tokens = x.tokens ++ pairTokens pairs := by
  induction pairs generalizing x with
  | nil => simp [extend, pairTokens]
  | cons pair rest ih =>
      have later := ih (infix2 x pair.1 pair.2)
      simp only [extend, pairTokens, List.foldl_cons, List.flatMap_cons] at later ⊢
      rw [later, tokens]
      simp

/-- Every expression is a first atom, followed by infix operators with an atom each.  Grouping to
the left makes this a different view of the same derivation. -/
theorem exists_extend : (x : Phrase .expression) →
    ∃ first pairs, x = (single first).extend pairs
  | single x => ⟨x, [], rfl⟩
  | infix2 x name y => by
      obtain ⟨first, pairs, rfl⟩ := exists_extend x
      exact ⟨first, pairs ++ [(name, y)], by simp [extend]⟩

/-- Atoms of at most `n` tokens are determined by any text that starts with
them. -/
def AtomsDetermined (n : Nat) : Prop :=
  ∀ (x x' : Phrase .atom) (rest rest' : List Token), x.tokens.length ≤ n →
    x.tokens ++ rest = x'.tokens ++ rest' → x = x' ∧ rest = rest'

/-- Such operators and atoms are determined as soon as the atoms are, since each pair starts with
an infix operator and what follows all of them does not. -/
theorem pairs_determined {n : Nat} (h : AtomsDetermined n) :
    ∀ (pairs pairs' : List (String × Phrase .atom)) (rest rest' : List Token),
      (pairTokens pairs).length ≤ n → ¬startsInfix rest → ¬startsInfix rest' →
      pairTokens pairs ++ rest = pairTokens pairs' ++ rest' → pairs = pairs' ∧ rest = rest'
  | [], [], rest, rest', _, _, _, same => ⟨rfl, same⟩
  | [], (name, x) :: pairs', rest, rest', _, hrest, _, same => by
      -- The rest on the left would start with the operator on the right.
      obtain rfl : rest = _ := same
      exact absurd trivial hrest
  | (name, x) :: pairs, [], rest, rest', _, _, hrest', same => by
      obtain rfl : _ = rest' := same
      exact absurd trivial hrest'
  | (name, x) :: pairs, (name', x') :: pairs', rest, rest', short, hrest, hrest', same => by
      simp only [pairTokens, List.flatMap_cons, List.cons_append, List.append_assoc,
        List.cons.injEq, Token.operator.injEq] at same
      obtain ⟨⟨rfl, -⟩, same'⟩ := same
      simp only [pairTokens, List.flatMap_cons, List.cons_append, List.length_cons,
        List.length_append] at short
      obtain ⟨rfl, later⟩ := h x x' _ _ (by omega) same'
      obtain ⟨rfl, rfl⟩ := pairs_determined h pairs pairs' rest rest'
        (by simp only [pairTokens]; omega) hrest hrest' later
      exact ⟨rfl, rfl⟩

/-- Expressions are determined by any text that starts with them and does not go on with an infix
operator, provided that shorter atoms are. -/
theorem expression_determined {n : Nat} (h : AtomsDetermined n)
    {x x' : Phrase .expression} {rest rest' : List Token} (short : x.tokens.length ≤ n)
    (hrest : ¬startsInfix rest) (hrest' : ¬startsInfix rest')
    (same : x.tokens ++ rest = x'.tokens ++ rest') : x = x' ∧ rest = rest' := by
  obtain ⟨first, pairs, rfl⟩ := exists_extend x
  obtain ⟨first', pairs', rfl⟩ := exists_extend x'
  simp only [tokens_extend, tokens, List.append_assoc, List.length_append] at same short
  obtain ⟨rfl, later⟩ := h first first' _ _ (by omega) same
  obtain ⟨rfl, rfl⟩ := pairs_determined h pairs pairs' rest rest' (by omega) hrest hrest' later
  exact ⟨rfl, rfl⟩

/-- Atoms are determined by any text that starts with them: the first token tells which of the
five kinds it is, and then how the rest of it is split. -/
theorem atomsDetermined (n : Nat) : AtomsDetermined n := by
  -- The induction is on the length, since an atom in brackets or behind a prefix
  -- contains expressions, and these are split into atoms before they are compared.
  induction n with
  | zero =>
      intro x _ _ _ short
      exact absurd (List.length_eq_zero_iff.mp (Nat.le_zero.mp short)) x.tokens_ne_nil
  | succ n ih =>
      intro x x' rest rest' short same
      cases x with
      | literal text => cases x' <;> simp_all [tokens]
      | paren x =>
          cases x' with
          | paren x' =>
              simp only [tokens, List.length_cons, List.length_append, List.cons_append,
                List.append_assoc, List.cons.injEq, true_and] at same short
              obtain ⟨rfl, later⟩ := expression_determined ih (by omega) id id same
              exact ⟨rfl, by simpa using later⟩
          | _ => simp [tokens] at same
      | brace x =>
          cases x' with
          | brace x' =>
              simp only [tokens, List.length_cons, List.length_append, List.cons_append,
                List.append_assoc, List.cons.injEq, true_and] at same short
              obtain ⟨rfl, later⟩ := expression_determined ih (by omega) id id same
              exact ⟨rfl, by simpa using later⟩
          | _ => simp [tokens] at same
      | prefix1 name x =>
          cases x' with
          | prefix1 name' x' =>
              simp only [tokens, List.length_cons, List.cons_append, List.cons.injEq,
                Token.operator.injEq, and_true] at same short
              obtain ⟨rfl, operand⟩ := same
              obtain ⟨rfl, rfl⟩ := ih x x' rest rest' (by omega) operand
              exact ⟨rfl, rfl⟩
          | _ => simp [tokens] at same
      | prefix3 name x y z =>
          cases x' with
          | prefix3 name' x' y' z' =>
              simp only [tokens, List.length_cons, List.length_append, List.cons_append,
                List.append_assoc, List.cons.injEq, Token.operator.injEq, and_true] at same short
              -- Each of the first two operands ends where the next one begins.
              obtain ⟨rfl, first⟩ := same
              obtain ⟨rfl, second⟩ := expression_determined ih (by omega)
                (not_startsInfix y _) (not_startsInfix y' _) first
              obtain ⟨rfl, third⟩ := expression_determined ih (by omega)
                (not_startsInfix z _) (not_startsInfix z' _) second
              obtain ⟨rfl, rfl⟩ := ih z z' rest rest' (by omega) third
              exact ⟨rfl, rfl⟩
          | _ => simp [tokens] at same

/-- **The grammar is unambiguous.**  Tokens have at most one derivation as an expression, so it
makes sense to speak of the derivation of a text, and to fold it. -/
theorem tokens_injective {x x' : Phrase .expression} (h : x.tokens = x'.tokens) : x = x' := by
  have same : x.tokens ++ [] = x'.tokens ++ [] := by rw [h]
  exact (expression_determined (atomsDetermined _) (Nat.le_refl _) id id same).1

end Phrase

end RuleEngine.Parse
