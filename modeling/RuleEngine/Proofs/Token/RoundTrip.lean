import RuleEngine.Proofs.Token.Spelling

/-!
# Tokens and their texts

Tokens that are written down are read again, provided that the writer keeps an
operator apart from what follows on it.  A literal ends at its quote and a
bracket is a single character, so nothing is needed behind these.  The name of
an operator ends at a delimiter: some space, or the first character of a literal
or of an opening bracket.

That one rule about gaps is enough for all registries.  Names of operators
contain no delimiter, so however they overlap, two of them that are followed by
a delimiter in one text are the same (`Registry.name_unique`).

## Main definitions

* `Token.Readable` - the tokens that can be read under a registry.
* `Piece`, `Piece.spell` - tokens with the gaps between them, and their text.
* `Separated` - the rule about gaps.

## Main statements

* `Registry.readable_of_tokenize` - only readable tokens are read.
* `Registry.tokenize_spell` - reading undoes writing, with any separating gaps;
  in particular with single spaces, for all tokens that were read and do not
  end with an operator.
-/

namespace RuleEngine

open Text (isSpace)

/-- A literal without a quote in it, an operator of the registry with its own
fixity, or a bracket. -/
def Token.Readable (registry : Registry) : Token → Prop
  | .literal text => '\'' ∉ text.toList
  | .operator name fixity => (name, fixity) ∈ registry.operators
  | .bracket _ => True

/-- Whether the text of a token starts with a delimiter. -/
def Token.delimits : Token → Bool
  | .literal _ => true
  | .operator _ _ => false
  | .bracket b => b = .openParen || b = .openBrace

/-- There is nothing but space in a text. -/
def Spaced (gap : String) : Prop :=
  ∀ c ∈ gap.toList, isSpace c

instance (gap : String) : Decidable (Spaced gap) :=
  decidable_of_iff (gap.toList.all isSpace = true) List.all_eq_true

/-- A token with the gap behind it. -/
structure Piece where
  /-- The token. -/
  token : Token
  /-- What stands between it and the next token. -/
  gap : String

/-- The text of some pieces. -/
def Piece.spell : List Piece → String
  | [] => ""
  | piece :: rest => piece.token.render ++ (piece.gap ++ spell rest)

/-- All gaps are made of space, and the gap behind an operator is not empty
unless the next token starts with a delimiter. -/
def Separated : List Piece → Prop
  | [] => True
  | piece :: rest =>
    Spaced piece.gap ∧
    (∀ name fixity, piece.token = .operator name fixity →
      piece.gap ≠ "" ∨ ∃ next, rest.head? = some next ∧ next.token.delimits) ∧
    Separated rest

/-! ### What is read is readable -/

namespace Vocabulary

variable {vocabulary : Vocabulary} {before tokens : List Token} {text after : List Char}
variable {token : Token}

/-- A literal ends at the first quote, so there is none in it. -/
theorem exists_of_literal? (h : literal? text = some (token, after)) :
    ∃ quoted, '\'' ∉ quoted ∧ token = .literal (String.ofList quoted) ∧
      text = quoted ++ '\'' :: after := by
  unfold literal? at h
  split at h
  · cases h
  · rename_i quote rest behind
    cases h
    refine ⟨text.takeWhile (· ≠ '\''), fun inside => ?_, rfl, ?_⟩
    · have other := List.all_eq_true.mp List.all_takeWhile _ inside
      simp at other
    · have ends := List.head?_dropWhile_not (· ≠ '\'') text
      rw [behind] at ends
      obtain rfl : quote = '\'' := by simpa using ends
      rw [← behind, List.takeWhile_append_dropWhile]

/-- What holds of every token that can be found holds of all tokens of a text. -/
theorem forall_of_tokens {P : Token → Prop}
    (found : ∀ text token after, vocabulary.token? text = some (token, after) → P token)
    (h : vocabulary.tokens before text = .ok tokens) (start : ∀ token ∈ before, P token) :
    ∀ token ∈ tokens, P token := by
  induction before, text using Vocabulary.tokens.induct vocabulary with
  | case1 before text blank =>
      rw [tokens_eq, blank] at h
      cases h
      exact fun token mem => start token (List.mem_reverse.mp mem)
  | case2 before text c rest solid missing =>
      rw [tokens_eq, solid] at h
      simp only [missing] at h
      cases h
  | case3 before text c rest solid token after read _ ih =>
      rw [tokens_eq, solid] at h
      simp only [read] at h
      refine ih h fun other mem => ?_
      rcases List.mem_cons.mp mem with rfl | mem
      · exact found _ _ _ read
      · exact start other mem

/-- Any amount of space is passed over. -/
theorem tokens_spaced {gap : String} (h : Spaced gap) :
    vocabulary.tokens before (gap.toList ++ text) = vocabulary.tokens before text := by
  unfold Spaced at h
  generalize gap.toList = spaces at h
  induction spaces with
  | nil => rfl
  | cons c rest ih =>
      rw [List.cons_append, tokens_space (h c List.mem_cons_self)]
      exact ih fun d hd => h d (List.mem_cons_of_mem c hd)

end Vocabulary

namespace Registry

open Vocabulary (startsDelimited isDelimiter)

variable {registry : Registry} {before tokens : List Token} {text : String}

/-- A token that is found can be written: a literal has no quote in it, and an operator is
registered. -/
theorem readable_of_token? {text after : List Char} {token : Token}
    (h : registry.vocabulary.token? text = some (token, after)) : token.Readable registry := by
  unfold Vocabulary.token? at h
  split at h
  · cases h
  · split at h
    · cases h
      trivial
    · split at h
      · obtain ⟨quoted, plain, rfl, -⟩ := Vocabulary.exists_of_literal? h
        rwa [Token.Readable, String.toList_ofList]
      · obtain ⟨name, fixity, mem, rfl, -⟩ := Vocabulary.exists_of_operator? h
        obtain ⟨operator, mem, same⟩ := List.mem_map.mp mem
        cases same
        rwa [Token.Readable, String.ofList_toList]

/-- Only readable tokens are read. -/
theorem readable_of_tokenize (h : registry.tokenize text = .ok tokens) :
    ∀ token ∈ tokens, token.Readable registry :=
  Vocabulary.forall_of_tokens (fun _ _ _ => readable_of_token?) h nofun

/-! ### What is written is read -/

/-- The gap behind an operator, or the token behind that, starts with a delimiter.  This is all
that the rule about gaps is for. -/
theorem startsDelimited_of_separated {piece : Piece} {rest : List Piece} {name : String}
    {fixity : Fixity} (separated : Separated (piece :: rest))
    (operator : piece.token = .operator name fixity) :
    startsDelimited (piece.gap.toList ++ (Piece.spell rest).toList) := by
  obtain ⟨spaced, apart, -⟩ := separated
  cases gap : piece.gap.toList with
  | cons c more =>
      have space : isSpace c := spaced c (by rw [gap]; exact List.mem_cons_self)
      simp [startsDelimited, isDelimiter, space]
  | nil =>
      rcases apart name fixity operator with some_space | ⟨next, first, delimits⟩
      · exact absurd (String.toList_eq_nil_iff.mp gap) some_space
      · obtain ⟨later, rfl⟩ : ∃ later, rest = next :: later := by
          cases rest with
          | nil => cases first
          | cons other later => exact ⟨later, by rw [Option.some.inj first]⟩
        rw [Piece.spell, String.toList_append, List.nil_append]
        cases token : next.token with
        | literal text =>
            rw [Token.render, String.toList_append, String.toList_append]
            rfl
        | operator name fixity => rw [token] at delimits; cases delimits
        | bracket b =>
            rw [token] at delimits
            cases b with
            | openParen | openBrace => rfl
            | closeParen | closeBrace => cases delimits

/-- Separated pieces are read one after another.  The induction is on the pieces, and each token
is read whatever the pieces behind it are. -/
theorem tokens_spell (regular : registry.Regular) {pieces : List Piece}
    (readable : ∀ piece ∈ pieces, piece.token.Readable registry) (separated : Separated pieces) :
    registry.vocabulary.tokens before (Piece.spell pieces).toList =
      .ok (before.reverse ++ pieces.map Piece.token) := by
  induction pieces generalizing before with
  | nil =>
      rw [List.map_nil, List.append_nil]
      exact Vocabulary.tokens_nil
  | cons piece rest ih =>
      have first : piece.token.Readable registry := readable piece List.mem_cons_self
      have reads : registry.vocabulary.tokens before (Piece.spell (piece :: rest)).toList =
          registry.vocabulary.tokens (piece.token :: before)
            (piece.gap.toList ++ (Piece.spell rest).toList) := by
        rw [Piece.spell, String.toList_append, String.toList_append]
        cases token : piece.token with
        | literal text =>
            rw [token] at first
            exact writes_literal first before _
        | operator name fixity =>
            rw [token] at first
            exact tokens_operator regular first (startsDelimited_of_separated separated token)
        | bracket b =>
            rw [Token.render, String.toList_singleton]
            exact Vocabulary.tokens_bracket b
      -- What is left starts with the gap, which is passed over.
      obtain ⟨spaced, -, later⟩ := separated
      rw [reads, Vocabulary.tokens_spaced spaced,
        ih (fun other mem => readable other (List.mem_cons_of_mem piece mem)) later,
        List.reverse_cons, List.append_assoc, List.map_cons]
      rfl

/-- So is a text that is made of them, with some space in front. -/
theorem tokenize_of_separated (regular : registry.Regular) (lead : String) {pieces : List Piece}
    (spaced : Spaced lead) (readable : ∀ piece ∈ pieces, piece.token.Readable registry)
    (separated : Separated pieces) :
    registry.tokenize (lead ++ Piece.spell pieces) = .ok (pieces.map Piece.token) := by
  rw [tokenize, String.toList_append, Vocabulary.tokens_spaced spaced,
    tokens_spell regular readable separated]
  rfl

/-! ### Single spaces -/

/-- Tokens with a space between each two of them. -/
def spaced : List Token → List Piece
  | [] => []
  | [token] => [⟨token, ""⟩]
  | token :: next :: rest => ⟨token, " "⟩ :: spaced (next :: rest)

theorem map_token_spaced (tokens : List Token) : (spaced tokens).map Piece.token = tokens := by
  induction tokens using spaced.induct with
  | case1 => rfl
  | case2 token => rfl
  | case3 token next rest ih => rw [spaced, List.map_cons, ih]

theorem spell_spaced (tokens : List Token) :
    Piece.spell (spaced tokens) = Token.renderAll tokens := by
  unfold Token.renderAll
  induction tokens using spaced.induct with
  | case1 => rfl
  | case2 token =>
      rw [List.map_singleton, String.intercalate_singleton, spaced, Piece.spell, Piece.spell,
        String.append_empty, String.append_empty]
  | case3 token next rest ih =>
      rw [List.map_cons, List.map_cons, String.intercalate_cons_cons, spaced, Piece.spell, ih,
        List.map_cons, String.append_assoc]

/-- Single spaces separate tokens that do not end with an operator.  The last one has no gap
behind it, and an operator would need one. -/
theorem separated_spaced
    (last : ∀ name fixity, tokens.getLast? ≠ some (.operator name fixity)) :
    Separated (spaced tokens) := by
  induction tokens using spaced.induct with
  | case1 => trivial
  | case2 token =>
      refine ⟨nofun, fun name fixity operator => ?_, trivial⟩
      exact absurd (congrArg some operator) (last name fixity)
  | case3 token next rest ih =>
      rw [List.getLast?_cons_cons] at last
      have space : Spaced " " := by decide
      have some_space : " " ≠ "" := by decide
      exact ⟨space, fun _ _ _ => .inl some_space, ih last⟩

/-- **Reading undoes writing.**  Readable tokens are read from their texts, with
any separating gaps between them and any space in front; and the tokens of a
text, unless they end with an operator, are read from what shows them with
single spaces. -/
theorem tokenize_spell {all : List Registration} (built : build all = .ok registry) :
    (∀ lead pieces, Spaced lead → (∀ piece ∈ pieces, piece.token.Readable registry) →
      Separated pieces →
      registry.tokenize (lead ++ Piece.spell pieces) = .ok (pieces.map Piece.token)) ∧
    ∀ text tokens, registry.tokenize text = .ok tokens →
      (∀ name fixity, tokens.getLast? ≠ some (.operator name fixity)) →
      registry.tokenize (Token.renderAll tokens) = .ok tokens := by
  have regular := regular_of_build built
  constructor
  · intro lead pieces gap readable separated
    exact tokenize_of_separated regular lead gap readable separated
  · intro text tokens read last
    have readable : ∀ piece ∈ spaced tokens, piece.token.Readable registry := by
      intro piece mem
      refine readable_of_tokenize read piece.token ?_
      rw [← map_token_spaced tokens]
      exact List.mem_map_of_mem mem
    have again := tokenize_of_separated regular "" nofun readable (separated_spaced last)
    rwa [map_token_spaced, spell_spaced, String.empty_append] at again

/-- A conjunction under the standard registry, with a gap of each kind: in front,
behind a literal, none behind the operator, and at the end.  What is read is read
again from its form with single spaces. -/
theorem tokenize_conjunction :
    standard.tokenize "\t'a' &&'b'\n" =
      .ok [.literal "a", .operator "&&" .infix2, .literal "b"] ∧
    standard.tokenize "'a' && 'b'" = .ok [.literal "a", .operator "&&" .infix2, .literal "b"] := by
  obtain ⟨written, again⟩ := tokenize_spell Standard.build_library
  have operator : ("&&", Fixity.infix2) ∈ standard.operators := by decide +kernel
  have read := written "\t"
    [⟨.literal "a", " "⟩, ⟨.operator "&&" .infix2, ""⟩, ⟨.literal "b", "\n"⟩] (by decide)
    (by simpa [Token.Readable] using operator)
    ⟨by decide, nofun, by decide, fun _ _ _ => .inr ⟨_, rfl, rfl⟩, by decide, nofun, trivial⟩
  exact ⟨read, again _ _ read (by simp)⟩

end Registry

end RuleEngine
