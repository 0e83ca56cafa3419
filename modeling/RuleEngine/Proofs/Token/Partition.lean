import Mathlib.Data.List.TakeWhile
import RuleEngine.Proofs.Token.RoundTrip

/-!
# What is in a text

Reading a text takes it apart and loses nothing.  What is found are tokens as they
are written, quotes included; what is passed over is space; and if reading stops
early, what is left is shown as it stands in the text.  It stops for no other reason
than that none of the rules for tokens applies there.

Each token takes up some of the text, so there are no more tokens than characters.
A literal takes up its quotes at least, and a bracket itself.  For an operator it takes
a rule of registration, that no name is empty, and the vocabulary of a registry is made
of such names only.

The proof follows the recursion of reading with one predicate for both results, since a
text that is read up to its end and one that is not have the same first part.

## Main definitions

* `Partition` - a text is made of tokens, space around them, and a remainder.
* `Untokenizable` - no token starts where the text starts, rule by rule.

## Main statements

* `Vocabulary.render_of_token?` - a token is found where it is written.
* `Registry.untokenizable_of_token?` - where none is found, no rule applies.
* `Vocabulary.accounts_tokens` - reading accounts for the whole text.
* `Registry.tokenize_partition` - so does tokenizing, under any registry that was
  built.
-/

namespace RuleEngine

open Text (isSpace)

/-! ### Parts of a text -/

/-- The text is made of the tokens as they are written, of space before, between and
behind them, and of what remains. -/
def Partition (text : String) (tokens : List Token) (remainder : String) : Prop :=
  ∃ lead pieces, Spaced lead ∧ (∀ piece ∈ pieces, Spaced piece.gap) ∧
    pieces.map Piece.token = tokens ∧ text = lead ++ (Piece.spell pieces ++ remainder)

/-- A text that is space and a remainder has no tokens in it. -/
theorem Partition.nil {lead : String} (spaced : Spaced lead) (remainder : String) :
    Partition (lead ++ remainder) [] remainder :=
  ⟨lead, [], spaced, nofun, rfl, by rw [Piece.spell, String.empty_append]⟩

/-- A token in front, with some space before it.  Partitions are put together in the order of
reading. -/
theorem Partition.cons {lead text remainder : String} {tokens : List Token}
    (spaced : Spaced lead) (token : Token) (h : Partition text tokens remainder) :
    Partition (lead ++ (token.render ++ text)) (token :: tokens) remainder := by
  obtain ⟨gap, pieces, spaced', between, rfl, rfl⟩ := h
  refine ⟨lead, ⟨token, gap⟩ :: pieces, spaced, ?_, rfl, ?_⟩
  · intro piece mem
    rcases List.mem_cons.mp mem with rfl | mem
    · exact spaced'
    · exact between piece mem
  · simp only [Piece.spell, String.append_assoc]

/-! ### Where no token starts -/

/-- No token starts where the text starts. -/
structure Untokenizable (registry : Registry) (text : String) : Prop where
  /-- There is some text. -/
  nonempty : text ≠ ""
  /-- It does not start with space. -/
  solid : ∀ c rest, isSpace c → text ≠ String.singleton c ++ rest
  /-- It does not start with a bracket. -/
  bracket : ∀ (b : Bracket) rest, text ≠ String.singleton b.char ++ rest
  /-- It does not start with a text between two quotes. -/
  literal : ∀ quoted rest, text ≠ "'" ++ (quoted ++ ("'" ++ rest))
  /-- It does not start with the name of an operator and a delimiter. -/
  delimited : ∀ name fixity c rest, (name, fixity) ∈ registry.operators →
    Vocabulary.isDelimiter c → text ≠ name ++ (String.singleton c ++ rest)
  /-- It does not start with the names of two operators that stand before their
  operands. -/
  chained : ∀ name fixity name' fixity' rest, (name, fixity) ∈ registry.operators →
    (name', fixity') ∈ registry.operators → fixity.isBefore → fixity'.isBefore →
    text ≠ name ++ (name' ++ rest)

namespace Vocabulary

variable {vocabulary : Vocabulary} {text after name name' rest : List Char} {token : Token}
variable {fixity fixity' : Fixity}

/-- **A token is found where it is written.**  What is left behind it is the text without the
token, so nothing is dropped or read twice. -/
theorem render_of_token? (h : vocabulary.token? text = some (token, after)) :
    text = token.render.toList ++ after := by
  unfold token? at h
  split at h
  · cases h
  · rename_i c text
    split at h
    · rename_i b bracket
      cases h
      rw [Bracket.ofChar?_eq_some_iff.mp bracket, Token.render, String.toList_singleton]
      rfl
    · split at h
      · rename_i quote
        obtain ⟨quoted, -, rfl, rfl⟩ := exists_of_literal? h
        simp [Token.render, quote]
      · obtain ⟨name, fixity, -, rfl, same⟩ := exists_of_operator? h
        rw [same, Token.render, String.toList_ofList]

theorem literal?_ne_none (quoted rest : List Char) : literal? (quoted ++ '\'' :: rest) ≠ none := by
  intro h
  unfold literal? at h
  split at h
  · rename_i unclosed
    have others := List.dropWhile_eq_nil_iff.mp unclosed '\'' (by simp)
    simp at others
  · cases h

/-- Where the name of an operator stands before a delimiter, an operator is found, if not that
one. -/
theorem delimited?_ne_none (mem : (name, fixity) ∈ vocabulary)
    (delimited : startsDelimited rest) : vocabulary.delimited? (name ++ rest) ≠ none := by
  intro h
  have missed := List.findSome?_eq_none_iff.mp h _ mem
  simp [dropStart?_eq_some_iff.mpr rfl, delimited] at missed

/-- So it is where it stands before another operator, and both before their operands. -/
theorem chained?_ne_none (mem : (name, fixity) ∈ vocabulary) (mem' : (name', fixity') ∈ vocabulary)
    (before : fixity.isBefore) (before' : fixity'.isBefore) :
    vocabulary.chained? (name ++ (name' ++ rest)) ≠ none := by
  intro h
  have follows : vocabulary.startsBefore (name' ++ rest) := by
    refine List.any_eq_true.mpr ⟨_, mem', ?_⟩
    simp [before', dropStart?_eq_some_iff.mpr rfl]
  have missed := List.findSome?_eq_none_iff.mp h _ mem
  simp [dropStart?_eq_some_iff.mpr rfl, before, follows] at missed

/-- What is not the case where no token is found: there is no bracket, no literal, and no operator
by either rule. -/
theorem missing_of_token? {c : Char} (h : vocabulary.token? (c :: text) = none) :
    (∀ b : Bracket, c ≠ b.char) ∧ (c = '\'' → literal? text = none) ∧
      (c ≠ '\'' → vocabulary.delimited? (c :: text) = none ∧
        vocabulary.chained? (c :: text) = none) := by
  unfold token? at h
  dsimp only at h
  split at h
  · cases h
  · rename_i other
    refine ⟨fun b same => ?_, fun quote => by rwa [if_pos quote] at h, fun solid => ?_⟩
    · rw [Bracket.ofChar?_eq_some_iff.mpr same] at other
      cases other
    · rw [if_neg solid] at h
      unfold operator? at h
      split at h
      · cases h
      · rename_i undelimited
        exact ⟨undelimited, h⟩

/-- What reading comes to accounts for the text: it is made of the tokens that are new
and of what remains, where no token is found. -/
def Accounts (vocabulary : Vocabulary) (before : List Token) (text : List Char) :
    Except TokenError (List Token) → Prop
  | .ok tokens => ∃ new, tokens = before.reverse ++ new ∧ new.length ≤ text.length ∧
      Partition (String.ofList text) new ""
  | .error e => ∃ new c rest, e.tokens = before.reverse ++ new ∧ new.length ≤ text.length ∧
      Partition (String.ofList text) new e.remainder ∧ e.remainder = String.ofList (c :: rest) ∧
      isSpace c = false ∧ vocabulary.token? (c :: rest) = none

/-- If reading accounts for what is left behind a token, it accounts for the text with the token
and the space before it. -/
theorem Accounts.cons {before : List Token} {lead : List Char}
    {result : Except TokenError (List Token)} (spaced : ∀ c ∈ lead, isSpace c)
    (found : vocabulary.token? text = some (token, after))
    (h : Accounts vocabulary (token :: before) after result) :
    Accounts vocabulary before (lead ++ text) result := by
  have shorter := length_rest_lt found
  have gap : Spaced (String.ofList lead) := by rwa [Spaced, String.toList_ofList]
  have whole : String.ofList (lead ++ text) =
      String.ofList lead ++ (token.render ++ String.ofList after) := by
    rw [render_of_token? found, String.ofList_append, String.ofList_append, String.ofList_toList]
  cases result with
  | ok tokens =>
      obtain ⟨new, rfl, few, parts⟩ := h
      refine ⟨token :: new, by simp, ?_, ?_⟩
      · rw [List.length_cons, List.length_append]
        omega
      · rw [whole]
        exact parts.cons gap token
  | error e =>
      obtain ⟨new, c, rest, same, few, parts, stopped⟩ := h
      refine ⟨token :: new, c, rest, by simp [same], ?_, ?_, stopped⟩
      · rw [List.length_cons, List.length_append]
        omega
      · rw [whole]
        exact parts.cons gap token

theorem spaced_takeWhile (text : List Char) : Spaced (String.ofList (text.takeWhile isSpace)) := by
  rw [Spaced, String.toList_ofList]
  exact fun c mem => List.mem_takeWhile_imp mem

/-- **Reading accounts for the whole text**, whether it comes to the end or stops.  The recursion
is that of reading: each token leaves less of the text. -/
theorem accounts_tokens (vocabulary : Vocabulary) (before : List Token) (text : List Char) :
    Accounts vocabulary before text (vocabulary.tokens before text) := by
  induction before, text using Vocabulary.tokens.induct vocabulary with
  | case1 before text blank =>
      have parts := Partition.nil (spaced_takeWhile text) (String.ofList (text.dropWhile isSpace))
      rw [← String.ofList_append, List.takeWhile_append_dropWhile, blank] at parts
      rw [tokens_eq, blank]
      exact ⟨[], (List.append_nil _).symm, Nat.zero_le _, parts⟩
  | case2 before text c rest solid missing =>
      have parts := Partition.nil (spaced_takeWhile text) (String.ofList (text.dropWhile isSpace))
      rw [← String.ofList_append, List.takeWhile_append_dropWhile, solid] at parts
      have first : isSpace c = false := by
        have head := List.head?_dropWhile_not isSpace text
        rw [solid] at head
        simpa using head
      rw [tokens_eq, solid]
      simp only [missing]
      exact ⟨[], c, rest, (List.append_nil _).symm, Nat.zero_le _, parts, rfl, first, missing⟩
  | case3 before text c rest solid token after found _ ih =>
      have account :=
        ih.cons (fun c mem => List.mem_takeWhile_imp (p := isSpace) (l := text) mem) found
      rw [← solid, List.takeWhile_append_dropWhile] at account
      rw [tokens_eq, solid]
      simp only [found]
      exact account

end Vocabulary

namespace Registry

variable {registry : Registry}

/-- The name of an operator does not start with a quote, nor is it empty.  So where it stands, the
rules for literals and for space do not apply. -/
theorem exists_first (regular : registry.Regular) {name : String} {fixity : Fixity}
    (mem : (name, fixity) ∈ registry.operators) :
    ∃ c rest, name.toList = c :: rest ∧ c ≠ '\'' := by
  obtain ⟨c, rest, same⟩ := List.exists_cons_of_ne_nil
    (mt String.toList_eq_nil_iff.mp (registry.named _ mem))
  refine ⟨c, rest, same, fun quote => ?_⟩
  have unreserved := regular.unreserved _ mem c (by simp [same])
  rw [quote] at unreserved
  exact absurd unreserved (by decide)

/-- **Where no token is found, none of the rules applies**, rule by rule, as they would be told to
an author. -/
theorem untokenizable_of_token? (regular : registry.Regular) {c : Char} {text : List Char}
    (solid : isSpace c = false) (missing : registry.vocabulary.token? (c :: text) = none) :
    Untokenizable registry (String.ofList (c :: text)) := by
  obtain ⟨noBracket, unclosed, noOperator⟩ := Vocabulary.missing_of_token? missing
  have chars {s : String} (same : String.ofList (c :: text) = s) : c :: text = s.toList := by
    rw [← same, String.toList_ofList]
  have entry {name : String} {fixity : Fixity} (mem : (name, fixity) ∈ registry.operators) :
      (name.toList, fixity) ∈ registry.vocabulary :=
    List.mem_map.mpr ⟨_, mem, rfl⟩
  -- A name of an operator does not begin with a quote, so the first character is none.
  have named {name rest : String} {fixity : Fixity} (mem : (name, fixity) ∈ registry.operators)
      (same : c :: text = name.toList ++ rest.toList) : c ≠ '\'' := by
    obtain ⟨d, more, first, other⟩ := exists_first regular mem
    rw [first, List.cons_append, List.cons.injEq] at same
    rwa [same.1]
  constructor
  case nonempty =>
    intro same
    cases chars same
  case solid =>
    intro d rest space same
    have same := chars same
    rw [String.toList_append, String.toList_singleton, List.singleton_append,
      List.cons.injEq] at same
    rw [same.1, space] at solid
    cases solid
  case bracket =>
    intro b rest same
    have same := chars same
    rw [String.toList_append, String.toList_singleton, List.singleton_append,
      List.cons.injEq] at same
    exact noBracket b same.1
  case literal =>
    intro quoted rest same
    have same := chars same
    simp only [String.toList_append] at same
    obtain ⟨quote, inside⟩ : c = '\'' ∧ text = quoted.toList ++ '\'' :: rest.toList := by
      simpa using same
    exact Vocabulary.literal?_ne_none _ _ (inside ▸ unclosed quote)
  case delimited =>
    intro name fixity d rest mem delimits same
    have same := chars same
    rw [String.toList_append] at same
    have delimited : Vocabulary.startsDelimited (String.singleton d ++ rest).toList := by
      rw [String.toList_append, String.toList_singleton]
      exact delimits
    refine Vocabulary.delimited?_ne_none (entry mem) delimited ?_
    rw [← same]
    exact (noOperator (named mem same)).1
  case chained =>
    intro name fixity name' fixity' rest mem mem' before before' same
    have same := chars same
    rw [String.toList_append] at same
    have free := named mem same
    rw [String.toList_append] at same
    have unchained := (noOperator free).2
    rw [same] at unchained
    exact Vocabulary.chained?_ne_none (entry mem) (entry mem') before before' unchained

/-- **Tokenizing loses nothing.**  A text that is read is made of its tokens and of space; one
that is not read is made of the tokens before the place where reading stopped, and of what is
left, at the start of which no token can be.  There are no more tokens than characters. -/
theorem tokenize_partition {all : List Registration} (built : build all = .ok registry)
    (text : String) :
    match registry.tokenize text with
    | .ok tokens => tokens.length ≤ text.length ∧ Partition text tokens ""
    | .error e => e.tokens.length ≤ text.length ∧ Partition text e.tokens e.remainder ∧
        Untokenizable registry e.remainder := by
  have account := Vocabulary.accounts_tokens registry.vocabulary [] text.toList
  unfold tokenize
  cases read : registry.vocabulary.tokens [] text.toList with
  | ok tokens =>
      rw [read] at account
      obtain ⟨new, rfl, few, parts⟩ := account
      rw [String.ofList_toList] at parts
      exact ⟨few, parts⟩
  | error e =>
      rw [read] at account
      obtain ⟨new, c, rest, same, few, parts, left, solid, missing⟩ := account
      rw [List.reverse_nil, List.nil_append] at same
      rw [String.ofList_toList] at parts
      dsimp only
      rw [same]
      refine ⟨few, parts, ?_⟩
      rw [left]
      exact untokenizable_of_token? (regular_of_build built) solid missing

/-- In `!'a' x`, reading stops at a word that the standard library does not have. -/
theorem tokenize_unknown_word :
    Partition "!'a' x" [.operator "!" .prefix1, .literal "a"] "x" ∧
      Untokenizable standard "x" := by
  have spelled : "!'a' x".toList = ['!', '\'', 'a', '\'', ' ', 'x'] := by decide
  have sign : standard.vocabulary.token? ['!', '\'', 'a', '\'', ' ', 'x'] =
      some (.operator "!" .prefix1, ['\'', 'a', '\'', ' ', 'x']) := by decide +kernel
  have quoted : standard.vocabulary.token? ['\'', 'a', '\'', ' ', 'x'] =
      some (.literal "a", [' ', 'x']) := by decide +kernel
  have word : standard.vocabulary.token? ['x'] = none := by decide +kernel
  have read : standard.tokenize "!'a' x" =
      .error ⟨"x", [.operator "!" .prefix1, .literal "a"]⟩ := by
    rw [tokenize, spelled, Vocabulary.tokens_of_token? rfl sign,
      Vocabulary.tokens_of_token? rfl quoted, Vocabulary.tokens_space rfl,
      Vocabulary.tokens_of_missing rfl word]
    rfl
  have parts := tokenize_partition Standard.build_library "!'a' x"
  rw [read] at parts
  exact parts.2

end Registry

end RuleEngine
