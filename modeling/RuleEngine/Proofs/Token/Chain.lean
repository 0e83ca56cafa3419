import RuleEngine.Proofs.Token.Partition

/-!
# Operators without space between them

An operator that stands before its operands may be followed by another one directly.
The text of such a chain says where each name ends only if names do not run into each
other: a name that starts with the name of an operator of the chain must not go on as
the chain might.  One character decides that.  If no name starts with the name of such
an operator together with the first character of another one, then the first operator
of a chain is the only one that can be read, in whatever order operators are tried.

The names of the standard operators meet this condition.  `callWith` and `?:NS` start
with the names `call` and `?:`, but no operator before its operands starts with `W` or
`N`.  One more operator is enough to break it: with an operator named `!v`, the chain
of `!` and `v` could not be written without space.

## Main definitions

* `Vocabulary.Chainable` - the condition on names.
* `Vocabulary.Reads` - the next tokens of a text, read one after another, and what is
  left behind them.

## Main statements

* `Vocabulary.exists_of_starts` - a name that stands where a chain starts does not go
  beyond the first operator of the chain.
* `Registry.operator?_chained` - hence this operator is read.
* `Registry.reads_chain` - so is the whole chain, before a delimiter.
* `Registry.reads_chain_standard` - chains of standard operators are read.
-/

namespace RuleEngine

open Text (isSpace)

namespace Vocabulary

/-! ### Names that do not run into each other -/

/-- No name starts with the name of an operator before its operands and the first
character of another one. -/
def Chainable (vocabulary : Vocabulary) : Prop :=
  ∀ front ∈ vocabulary, front.2.isBefore → ∀ next ∈ vocabulary, next.2.isBefore →
    ∀ entry ∈ vocabulary, ¬ (front.1 ++ next.1.take 1) <+: entry.1

instance (vocabulary : Vocabulary) : Decidable vocabulary.Chainable :=
  inferInstanceAs (Decidable (∀ front ∈ vocabulary.names, front.2.isBefore →
    ∀ next ∈ vocabulary.names, next.2.isBefore →
      ∀ entry ∈ vocabulary.names, ¬ (front.1 ++ next.1.take 1) <+: entry.1))

section Chains

variable {vocabulary : Vocabulary} (chainable : vocabulary.Chainable)
variable {front next entry : List Char × Fixity} {rest text : List Char}
variable (hfront : front ∈ vocabulary) (before : front.2.isBefore)
variable (hnext : next ∈ vocabulary) (before' : next.2.isBefore)

include chainable hfront before hnext before'

/-- **A name at the start of a chain** does not go beyond the first operator.  If it did, it would
start with that operator and go on as the next one begins, and the condition on names excludes
that. -/
theorem exists_of_starts (mem : entry ∈ vocabulary)
    (same : front.1 ++ (next.1 ++ text) = entry.1 ++ rest) :
    ∃ more, front.1 = entry.1 ++ more ∧ rest = more ++ (next.1 ++ text) := by
  rcases List.append_eq_append_iff.mp same with ⟨more, longer, left⟩ | ⟨more, shorter, left⟩
  · cases more with
    | nil =>
        refine ⟨[], ?_, left.symm⟩
        rw [List.append_nil] at longer ⊢
        exact longer.symm
    | cons c more =>
        -- The name would go on with the first character of the next operator.
        obtain ⟨d, name, first⟩ := List.exists_cons_of_ne_nil (vocabulary.named next hnext)
        rw [first, List.cons_append, List.cons_append, List.cons.injEq] at left
        refine absurd ⟨more, ?_⟩ (chainable front hfront before next hnext before' entry mem)
        rw [first, longer, left.1, List.take_succ_cons, List.take_zero, List.append_assoc]
        rfl
  · exact ⟨more, shorter, left⟩

/-- It is no name before a delimiter, since no delimiter is inside of a chain.  So the first rule
for operators does not apply, and the second one is asked. -/
theorem delimited?_eq_none (plain : ∀ c ∈ front.1 ++ next.1, isDelimiter c = false) :
    vocabulary.delimited? (front.1 ++ (next.1 ++ text)) = none := by
  refine List.findSome?_eq_none_iff.mpr fun entry mem => ?_
  dsimp only
  cases found : dropStart? entry.1 (front.1 ++ (next.1 ++ text)) with
  | none => rfl
  | some rest =>
      have same := dropStart?_eq_some_iff.mp found
      obtain ⟨more, shorter, rfl⟩ :=
        exists_of_starts chainable hfront before hnext before' mem same
      refine if_neg (Bool.not_eq_true _ ▸ ?_)
      cases more with
      | nil =>
          obtain ⟨c, name, first⟩ := List.exists_cons_of_ne_nil (vocabulary.named next hnext)
          rw [first]
          exact plain c (by simp [first])
      | cons c more => exact plain c (by simp [shorter])

/-- What is left behind a shorter name does not start with an operator before its operands.  The
second rule therefore rejects every name but the first operator itself. -/
theorem eq_of_startsBefore (mem : entry ∈ vocabulary) (standing : entry.2.isBefore)
    (same : front.1 ++ (next.1 ++ text) = entry.1 ++ rest)
    (follows : vocabulary.startsBefore rest) : entry.1 = front.1 ∧ rest = next.1 ++ text := by
  obtain ⟨more, shorter, rfl⟩ :=
    exists_of_starts chainable hfront before hnext before' mem same
  cases more with
  | nil =>
      rw [List.append_nil] at shorter
      exact ⟨shorter.symm, rfl⟩
  | cons c more =>
      obtain ⟨other, hother, found⟩ := List.any_eq_true.mp follows
      simp only [Bool.and_eq_true] at found
      obtain ⟨after, found'⟩ := Option.isSome_iff_exists.mp found.2
      have same' := dropStart?_eq_some_iff.mp found'
      obtain ⟨d, name, first⟩ := List.exists_cons_of_ne_nil (vocabulary.named other hother)
      rw [first, List.cons_append, List.cons_append, List.cons.injEq] at same'
      refine absurd ⟨more, ?_⟩ (chainable entry mem standing other hother found.1 front hfront)
      rw [first, shorter, same'.1, List.take_succ_cons, List.take_zero, List.append_assoc]
      rfl

end Chains

/-! ### Tokens one after another -/

/-- The next tokens of a text, read one after another, and what is left behind them. -/
inductive Reads (vocabulary : Vocabulary) : List Char → List Token → List Char → Prop
  | nil (text) : Reads vocabulary text [] text
  | cons {text c rest token after tokens final} : text.dropWhile isSpace = c :: rest →
      vocabulary.token? (c :: rest) = some (token, after) → Reads vocabulary after tokens final →
      Reads vocabulary text (token :: tokens) final

/-- Reading goes on behind the tokens that were read, with these put before all that were read
earlier. -/
theorem Reads.tokens_eq {vocabulary : Vocabulary} {text final : List Char} {tokens : List Token}
    (h : vocabulary.Reads text tokens final) (before : List Token) :
    vocabulary.tokens before text = vocabulary.tokens (tokens.reverse ++ before) final := by
  induction h generalizing before with
  | nil text => rfl
  | cons solid found _ ih =>
      rw [Vocabulary.tokens_eq, solid]
      simp only [found]
      rw [ih, List.reverse_cons, List.append_assoc]
      rfl

end Vocabulary

namespace Registry

open Vocabulary (isDelimiter startsDelimited Reads)

variable {registry : Registry} {text : List Char}

/-- **The first operator of a chain is read.**  The order of the vocabulary does not matter, since
no other name passes either rule. -/
theorem operator?_chained (regular : registry.Regular) (chainable : registry.vocabulary.Chainable)
    {front next : String × Fixity} (hfront : front ∈ registry.operators) (before : front.2.isBefore)
    (hnext : next ∈ registry.operators) (before' : next.2.isBefore) (text : List Char) :
    registry.vocabulary.operator? (front.1.toList ++ (next.1.toList ++ text)) =
      some (.operator front.1 front.2, next.1.toList ++ text) := by
  have listed {operator : String × Fixity} (mem : operator ∈ registry.operators) :
      (operator.1.toList, operator.2) ∈ registry.vocabulary :=
    List.mem_map.mpr ⟨operator, mem, rfl⟩
  have first := listed hfront
  have second := listed hnext
  have plain : ∀ c ∈ front.1.toList ++ next.1.toList, isDelimiter c = false := by
    intro c inside
    rcases List.mem_append.mp inside with inside | inside
    · exact isDelimiter_eq_false regular hfront inside
    · exact isDelimiter_eq_false regular hnext inside
  rw [Vocabulary.operator?,
    Vocabulary.delimited?_eq_none chainable first before second before' plain]
  dsimp only
  cases found : registry.vocabulary.chained? (front.1.toList ++ (next.1.toList ++ text)) with
  | none =>
      exact absurd found (Vocabulary.chained?_ne_none first second before before')
  | some read =>
      obtain ⟨token, rest⟩ := read
      obtain ⟨entry, mem, rfl, standing, same, follows⟩ := Vocabulary.entry_of_chained? found
      obtain ⟨named, rfl⟩ := Vocabulary.eq_of_startsBefore chainable first before second
        before' mem standing same follows
      obtain ⟨operator, hoperator, rfl⟩ := List.mem_map.mp mem
      -- It has the name of the first operator, and so its fixity.
      obtain ⟨name, fixity⟩ := front
      obtain ⟨name', fixity'⟩ := operator
      obtain rfl := String.toList_inj.mp named
      obtain rfl := regular.fixities name' fixity fixity' hfront hoperator
      rw [String.ofList_toList]

/-- An operator that is found where its name stands is the next token.  Chains are put together
from this, the last operator first. -/
theorem reads_cons (regular : registry.Regular) {operator : String × Fixity}
    {tokens : List Token} {final : List Char} (mem : operator ∈ registry.operators)
    (found : registry.vocabulary.operator? (operator.1.toList ++ text) =
      some (.operator operator.1 operator.2, text))
    (h : registry.vocabulary.Reads text tokens final) :
    registry.vocabulary.Reads (operator.1.toList ++ text)
      (.operator operator.1 operator.2 :: tokens) final := by
  obtain ⟨c, rest, same, solid, tried⟩ := exists_solid regular mem text
  rw [same] at found ⊢
  exact .cons (List.dropWhile_cons_of_neg (by simp [solid])) (tried.trans found) h

/-- **A chain is read**, operator by operator, before a delimiter.  The induction is on the chain:
its last operator stands before the delimiter, and each of the others before another one. -/
theorem reads_chain (regular : registry.Regular) (chainable : registry.vocabulary.Chainable)
    {chain : List (String × Fixity)} (some_operator : chain ≠ [])
    (standing : ∀ operator ∈ chain, operator ∈ registry.operators ∧ operator.2.isBefore)
    (delimited : startsDelimited text) :
    registry.vocabulary.Reads (chain.flatMap (·.1.toList) ++ text)
      (chain.map fun operator => .operator operator.1 operator.2) text := by
  induction chain with
  | nil => exact absurd rfl some_operator
  | cons front rest ih =>
      obtain ⟨hfront, before⟩ := standing front List.mem_cons_self
      rw [List.flatMap_cons, List.append_assoc]
      cases rest with
      | nil =>
          refine reads_cons regular hfront ?_ (.nil text)
          have read := delimited?_operator regular hfront delimited
          simp only [List.flatMap_nil, List.nil_append, Vocabulary.operator?, read]
      | cons next more =>
          obtain ⟨hnext, before'⟩ := standing next (by simp)
          have later := ih (List.cons_ne_nil next more)
            fun operator mem => standing operator (List.mem_cons_of_mem front mem)
          refine reads_cons regular hfront ?_ later
          rw [List.flatMap_cons, List.append_assoc]
          exact operator?_chained regular chainable hfront before hnext before' _

/-! ### The standard operators -/

/-- The names of the standard operators do not run into each other.  There are finitely many names
and finitely many first characters, so this is a computation. -/
theorem chainable_standard : standard.vocabulary.Chainable := by
  decide +kernel

/-- **Operators before their operands need no space between them.**  In the standard
language, any chain of them before a delimiter is read operator by operator, and reading
goes on with the delimiter. -/
theorem reads_chain_standard (chain : List (String × Fixity)) (c : Char) (rest : List Char)
    (some_operator : chain ≠ [])
    (standing : ∀ operator ∈ chain, operator ∈ standard.operators ∧
      (operator.2 = .prefix1 ∨ operator.2 = .prefix3))
    (delimiter : c ∈ [' ', '\t', '\n', '\r', '\'', '(', '\x7b']) :
    standard.vocabulary.Reads (chain.flatMap (·.1.toList) ++ c :: rest)
        (chain.map fun operator => .operator operator.1 operator.2) (c :: rest) ∧
      ∀ before, standard.vocabulary.tokens before (chain.flatMap (·.1.toList) ++ c :: rest) =
        standard.vocabulary.tokens
          ((chain.map fun operator => .operator operator.1 operator.2).reverse ++ before)
          (c :: rest) := by
  have before : ∀ operator ∈ chain, operator ∈ standard.operators ∧ operator.2.isBefore := by
    intro operator mem
    obtain ⟨listed, one | three⟩ := standing operator mem
    · exact ⟨listed, by rw [one]; rfl⟩
    · exact ⟨listed, by rw [three]; rfl⟩
  have delimited : startsDelimited (c :: rest) := by
    have all : [' ', '\t', '\n', '\r', '\'', '(', '\x7b'].all isDelimiter := by decide
    exact List.all_eq_true.mp all c delimiter
  have reads := reads_chain regular_standard chainable_standard some_operator before delimited
  exact ⟨reads, reads.tokens_eq⟩

/-- In `!*?:NSv'x'`, the longer of two names that start alike is among four operators. -/
theorem reads_chain_longer_name :
    standard.vocabulary.tokens [] "!*?:NSv'x'".toList =
      .ok [.operator "!" .prefix1, .operator "*" .prefix1, .operator "?:NS" .prefix3,
        .operator "v" .prefix1, .literal "x"] := by
  have standing : ∀ operator ∈ [("!", Fixity.prefix1), ("*", .prefix1), ("?:NS", .prefix3),
      ("v", .prefix1)], operator ∈ standard.operators ∧
        (operator.2 = .prefix1 ∨ operator.2 = .prefix3) := by decide +kernel
  have read := (reads_chain_standard _ '\'' ['x', '\''] (by simp) standing (by decide)).2 []
  have unquoted : '\'' ∉ ['x'] := by decide
  refine read.trans ((Vocabulary.tokens_literal unquoted).trans ?_)
  rw [Vocabulary.tokens_nil]
  rfl

end Registry

end RuleEngine
