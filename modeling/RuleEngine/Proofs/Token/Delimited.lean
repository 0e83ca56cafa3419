import RuleEngine.Proofs.Token.Partition

/-!
# Operators before delimiters

The characters that a name must not contain include all delimiters.  A name that stands
directly before a delimiter is therefore the whole text up to there, and there is only
one such name.  Whether an operator is read where a delimiter follows on its name is a
matter of the text alone; the other names have no say in it, nor has the order in which
operators are tried, longer names first.

The order does matter where no delimiter follows, in a chain of operators that stand
before their operands.  If there are operators `!` and `!!` of that kind, then `!!!'x'`
starts with either of them and another one follows on both.

## Main definitions

* `Vocabulary.word` - a text up to its first delimiter.
* `Registry.Delimits` - an operator stands directly before a delimiter.
* `Registry.StartsChain` - an operator stands directly before another one, and both
  stand before their operands.
* `Registry.reordered` - a registry with some of its operators, in any order.

## Main statements

* `Registry.delimited?_reordered_iff` - which operator is read before a delimiter.
* `Registry.startsChain_of_token?_ne` - where the order matters.
* `Registry.reading_of_build` - both of them, for every registry that was built.
-/

namespace RuleEngine

open Text (isSpace)

namespace Vocabulary

/-- The text up to its first delimiter. -/
def word (text : List Char) : List Char :=
  text.takeWhile fun c => !isDelimiter c

/-- A text that goes on with a delimiter has what stands before it as its word. -/
theorem word_append {name rest : List Char} (plain : ∀ c ∈ name, isDelimiter c = false)
    (delimited : startsDelimited rest) : word (name ++ rest) = name := by
  have inside : ∀ c ∈ name, (!isDelimiter c) = true := by
    intro c mem
    rw [plain c mem]
    rfl
  cases rest with
  | nil => cases delimited
  | cons c rest =>
      have stops : isDelimiter c = true := delimited
      rw [word, List.takeWhile_append_of_pos inside, List.takeWhile_cons_of_neg (by simp [stops]),
        List.append_nil]

end Vocabulary

namespace Registry

open Vocabulary (isDelimiter startsDelimited dropStart?_eq_some_iff word word_append)

/-- The operator stands at the start of the text, directly before a delimiter. -/
def Delimits (operator : String × Fixity) (text rest : List Char) : Prop :=
  text = operator.1.toList ++ rest ∧ startsDelimited rest

/-- At the start of the text an operator stands directly before another one, and both
stand before their operands. -/
def StartsChain (registry : Registry) (text : List Char) : Prop :=
  ∃ front ∈ registry.operators, ∃ next ∈ registry.operators,
    front.2.isBefore ∧ next.2.isBefore ∧ ∃ rest, text = front.1.toList ++ (next.1.toList ++ rest)

/-- The registry with these of its operators, tried in this order. -/
def reordered (registry : Registry) (operators : List (String × Fixity))
    (some_of : operators ⊆ registry.operators) : Registry :=
  { registry with
    operators
    named := fun operator mem => registry.named operator (some_of mem) }

variable {registry : Registry} {operators : List (String × Fixity)} {text rest : List Char}
variable {operator operator' : String × Fixity} {token : Token}

/-- Registries with fewer operators, in another order, are as regular as before. -/
theorem Regular.reordered (regular : registry.Regular) (some_of : operators ⊆ registry.operators) :
    (registry.reordered operators some_of).Regular where
  unreserved := fun operator mem => regular.unreserved operator (some_of mem)
  fixities := fun name f f' mem mem' => regular.fixities name f f' (some_of mem) (some_of mem')
  function := regular.function

/-! ### One name before a delimiter -/

/-- The name is the whole text up to the delimiter.  It cannot be shorter, since a delimiter
follows on it, nor longer, since it contains none. -/
theorem Delimits.eq_word (regular : registry.Regular) (mem : operator ∈ registry.operators)
    (h : Delimits operator text rest) : operator.1.toList = word text := by
  obtain ⟨rfl, delimited⟩ := h
  exact (word_append (fun _ => isDelimiter_eq_false regular mem) delimited).symm

/-- **At most one operator stands before a delimiter.**  Two of them would have the same name, and
a name comes with one fixity. -/
theorem Delimits.unique {rest' : List Char} (regular : registry.Regular)
    (mem : operator ∈ registry.operators) (mem' : operator' ∈ registry.operators)
    (h : Delimits operator text rest) (h' : Delimits operator' text rest') :
    operator = operator' := by
  obtain ⟨name, fixity⟩ := operator
  obtain ⟨name', fixity'⟩ := operator'
  obtain rfl : name = name' :=
    String.toList_inj.mp ((h.eq_word regular mem).trans (h'.eq_word regular mem').symm)
  rw [regular.fixities name fixity fixity' mem mem']

/-- What is read before a delimiter is one of the operators, and it stands there. -/
theorem exists_of_delimited? (h : registry.vocabulary.delimited? text = some (token, rest)) :
    ∃ operator ∈ registry.operators, token = .operator operator.1 operator.2 ∧
      Delimits operator text rest := by
  obtain ⟨_, listed, rfl, stands⟩ := Vocabulary.entry_of_delimited? h
  obtain ⟨operator, mem, rfl⟩ := List.mem_map.mp listed
  exact ⟨operator, mem, by rw [String.ofList_toList], stands⟩

/-- **An operator is read before a delimiter if it stands there.**  Neither the other operators
matter nor their order: a registry with only some of them, in any order, reads each one where it
stands. -/
theorem delimited?_reordered_iff (regular : registry.Regular)
    (some_of : operators ⊆ registry.operators) :
    (registry.reordered operators some_of).vocabulary.delimited? text = some (token, rest) ↔
      ∃ operator ∈ operators, token = .operator operator.1 operator.2 ∧
        Delimits operator text rest := by
  refine ⟨exists_of_delimited?, ?_⟩
  rintro ⟨operator, mem, rfl, rfl, delimited⟩
  exact delimited?_operator (regular.reordered some_of) mem delimited

/-- So another order of operators makes no difference before a delimiter. -/
theorem delimited?_of_perm (regular : registry.Regular)
    (order : operators.Perm registry.operators) (text : List Char) :
    (registry.reordered operators order.subset).vocabulary.delimited? text =
      registry.vocabulary.delimited? text := by
  refine Option.ext fun ⟨token, rest⟩ => ?_
  refine (delimited?_reordered_iff regular order.subset).trans (Iff.trans ?_
    (delimited?_reordered_iff regular (List.Subset.refl registry.operators)).symm)
  simp only [order.mem_iff]

/-! ### Chains without delimiters -/

/-- What the second rule reads is the start of a chain. -/
theorem startsChain_of_chained? {read : Token × List Char}
    (h : registry.vocabulary.chained? text = some read) : registry.StartsChain text := by
  obtain ⟨_, listed, -, before, rfl, follows⟩ := Vocabulary.entry_of_chained? h
  obtain ⟨front, mem, rfl⟩ := List.mem_map.mp listed
  obtain ⟨_, listed', standing⟩ := List.any_eq_true.mp follows
  obtain ⟨next, mem', rfl⟩ := List.mem_map.mp listed'
  simp only [Bool.and_eq_true] at standing
  obtain ⟨rest, behind⟩ := Option.isSome_iff_exists.mp standing.2
  refine ⟨front, mem, next, mem', before, standing.1, rest, ?_⟩
  rw [dropStart?_eq_some_iff.mp behind]

theorem startsChain_of_perm (order : operators.Perm registry.operators)
    (h : (registry.reordered operators order.subset).StartsChain text) :
    registry.StartsChain text := by
  obtain ⟨front, mem, next, mem', chain⟩ := h
  exact ⟨front, order.subset mem, next, order.subset mem', chain⟩

/-- **The order matters in chains only.**  Where another token is read if operators are tried in
another order, none stands before a delimiter, and a chain starts. -/
theorem startsChain_of_token?_ne (regular : registry.Regular)
    (order : operators.Perm registry.operators)
    (differ : (registry.reordered operators order.subset).vocabulary.token? text ≠
      registry.vocabulary.token? text) :
    registry.vocabulary.delimited? text = none ∧ registry.StartsChain text := by
  -- Brackets and literals do not depend on the vocabulary.
  have operators_differ : (registry.reordered operators order.subset).vocabulary.operator? text ≠
      registry.vocabulary.operator? text := by
    intro same
    cases text with
    | nil => exact differ rfl
    | cons c text => exact differ (by simp only [Vocabulary.token?, same])
  simp only [Vocabulary.operator?, delimited?_of_perm regular order] at operators_differ
  cases delimited : registry.vocabulary.delimited? text with
  | some read => simp [delimited] at operators_differ
  | none =>
      refine ⟨rfl, ?_⟩
      simp only [delimited] at operators_differ
      cases chained : registry.vocabulary.chained? text with
      | some read => exact startsChain_of_chained? chained
      | none =>
          rw [chained] at operators_differ
          obtain ⟨read, chained'⟩ := Option.ne_none_iff_exists'.mp operators_differ
          exact startsChain_of_perm order (startsChain_of_chained? chained')

/-- There it does matter: either of two operators can be read in `!!!'x'`. -/
example :
    let vocabulary : Vocabulary := ⟨[(['!', '!'], .prefix1), (['!'], .prefix1)], by decide⟩
    let reversed : Vocabulary := ⟨[(['!'], .prefix1), (['!', '!'], .prefix1)], by decide⟩
    vocabulary.token? "!!!'x'".toList = some (.operator "!!" .prefix1, "!'x'".toList) ∧
      reversed.token? "!!!'x'".toList = some (.operator "!" .prefix1, "!!'x'".toList) := by
  decide

/-- So it is for all tokens of a text: there is a chain somewhere in it.  The first place where
the two readings part is such a place, and up to there they agree. -/
theorem exists_chain_of_tokens_ne (regular : registry.Regular)
    (order : operators.Perm registry.operators) {before : List Token}
    (differ : (registry.reordered operators order.subset).vocabulary.tokens before text ≠
      registry.vocabulary.tokens before text) :
    ∃ front rest, text = front ++ rest ∧ registry.vocabulary.delimited? rest = none ∧
      registry.StartsChain rest := by
  induction before, text using Vocabulary.tokens.induct registry.vocabulary with
  | case1 before text blank =>
      refine absurd ?_ differ
      rw [Vocabulary.tokens_eq, Vocabulary.tokens_eq, blank]
  | case2 before text c rest solid missing =>
      rw [Vocabulary.tokens_eq, Vocabulary.tokens_eq, solid] at differ
      by_cases same : (registry.reordered operators order.subset).vocabulary.token? (c :: rest) =
          registry.vocabulary.token? (c :: rest)
      · simp only [same, missing, ne_eq, not_true_eq_false] at differ
      · refine ⟨text.takeWhile isSpace, c :: rest, ?_, startsChain_of_token?_ne regular order same⟩
        rw [← solid, List.takeWhile_append_dropWhile]
  | case3 before text c rest solid token after found _ ih =>
      have whole : text = text.takeWhile isSpace ++ (c :: rest) := by
        rw [← solid, List.takeWhile_append_dropWhile]
      rw [Vocabulary.tokens_eq, Vocabulary.tokens_eq, solid] at differ
      by_cases same : (registry.reordered operators order.subset).vocabulary.token? (c :: rest) =
          registry.vocabulary.token? (c :: rest)
      · simp only [same, found] at differ
        obtain ⟨front, later, rfl, chain⟩ := ih differ
        refine ⟨text.takeWhile isSpace ++ (token.render.toList ++ front), later, ?_, chain⟩
        rw [List.append_assoc, List.append_assoc, ← Vocabulary.render_of_token? found]
        exact whole
      · exact ⟨text.takeWhile isSpace, c :: rest, whole,
          startsChain_of_token?_ne regular order same⟩

/-! ### Registries that were built -/

/-- How operators are read at the start of a text. -/
structure Reading (registry : Registry) (text : List Char) : Prop where
  /-- An operator before a delimiter has all of the text up to the first delimiter as its
  name. -/
  whole : ∀ operator ∈ registry.operators, ∀ rest, Delimits operator text rest →
    operator.1.toList = word text
  /-- There is only one such operator. -/
  unique : ∀ operator ∈ registry.operators, ∀ operator' ∈ registry.operators, ∀ rest rest',
    Delimits operator text rest → Delimits operator' text rest' → operator = operator'
  /-- It is read whatever the other operators are, and in whatever order they are tried. -/
  independent : ∀ operators, ∀ some_of : operators ⊆ registry.operators, ∀ token rest,
    (registry.reordered operators some_of).vocabulary.delimited? text = some (token, rest) ↔
      ∃ operator ∈ operators, token = .operator operator.1 operator.2 ∧
        Delimits operator text rest
  /-- In another order, another token is read here only in a chain of operators before
  their operands where none of them stands before a delimiter. -/
  order : ∀ operators, ∀ order : operators.Perm registry.operators,
    (registry.reordered operators order.subset).vocabulary.token? text ≠
      registry.vocabulary.token? text →
    (∀ operator ∈ registry.operators, ∀ rest, ¬ Delimits operator text rest) ∧
      registry.StartsChain text

/-- **Operators before delimiters are read for what they are**, at every place of a text
and for every registry that was built.  If a text is read otherwise when operators are
tried in another order, there is a chain somewhere in it, with no operator before a
delimiter where the chain starts. -/
theorem reading_of_build {all : List Registration} (built : build all = .ok registry)
    (text : List Char) :
    registry.Reading text ∧
      ∀ operators, ∀ order : operators.Perm registry.operators, ∀ before,
        (registry.reordered operators order.subset).vocabulary.tokens before text ≠
          registry.vocabulary.tokens before text →
        ∃ front rest, text = front ++ rest ∧ registry.StartsChain rest ∧
          ∀ operator ∈ registry.operators, ∀ after, ¬ Delimits operator rest after := by
  have regular := regular_of_build built
  have undelimited {text : List Char} (h : registry.vocabulary.delimited? text = none) :
      ∀ operator ∈ registry.operators, ∀ rest, ¬ Delimits operator text rest := by
    rintro operator mem rest ⟨rfl, delimited⟩
    rw [delimited?_operator regular mem delimited] at h
    cases h
  refine ⟨⟨?_, ?_, ?_, ?_⟩, ?_⟩
  · exact fun operator mem rest h => h.eq_word regular mem
  · exact fun operator mem operator' mem' rest rest' h h' => h.unique regular mem mem' h'
  · exact fun operators some_of token rest => delimited?_reordered_iff regular some_of
  · intro operators order differ
    obtain ⟨none_delimits, chain⟩ := startsChain_of_token?_ne regular order differ
    exact ⟨undelimited none_delimits, chain⟩
  · intro operators order before differ
    obtain ⟨front, rest, whole, none_delimits, chain⟩ :=
      exists_chain_of_tokens_ne regular order differ
    exact ⟨front, rest, whole, chain, undelimited none_delimits⟩

/-- In the standard language, `?:` and `?:NS` are names, and `?:NS` is the one in
`?:NS('a')`. -/
theorem reading_longer_name :
    build Standard.library = .ok standard ∧ ("?:", .prefix3) ∈ standard.operators ∧
      ∀ operator ∈ standard.operators, ∀ rest, Delimits operator "?:NS('a')".toList rest →
        operator = ("?:NS", .prefix3) := by
  have mem : ("?:NS", Fixity.prefix3) ∈ standard.operators := by decide +kernel
  have shorter : ("?:", Fixity.prefix3) ∈ standard.operators := by decide +kernel
  have stands : Delimits ("?:NS", .prefix3) "?:NS('a')".toList "('a')".toList :=
    ⟨by decide, by decide⟩
  refine ⟨Standard.build_library, shorter, fun operator mem' rest h => ?_⟩
  exact (reading_of_build Standard.build_library _).1.unique operator mem' _ mem rest _ h stands

end Registry

end RuleEngine
