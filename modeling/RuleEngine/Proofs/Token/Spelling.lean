import RuleEngine.Proofs.Registry.Rules
import RuleEngine.Token.Scan

/-!
# How tokens are spelled

`Vocabulary.tokens` reads one token after another.  Here it is said what is read
from a text of which the first token is known: space is passed over, a bracket
and a quoted text are tokens whatever follows, and the name of an operator is a
token before any delimiter.

The vocabulary of a registry is tried in order, and several names may stand at one place
of a text, `?:` and `?:NS` for instance.  Before a delimiter there is one at most, which
is why nothing is said about the order here.  That names contain no delimiter, and that
a name has one fixity, is part of what makes a registry regular.

Texts that are built from expressions are dealt with by `Writes`: such a text spells its
tokens wherever it stands, so texts can be put together as tokens are.

## Main statements

* `tokens_space`, `tokens_bracket`, `tokens_literal` - what holds for any
  vocabulary.
* `delimited?_operator` - before a delimiter, no other operator can be meant than
  the one whose name stands there.
* `tokens_operator` - hence this operator is read.
* `Writes.append`, `Writes.operator` - texts that spell tokens can be put together.
-/

namespace RuleEngine

namespace Vocabulary

open Text (isSpace)

variable {vocabulary : Vocabulary} {before : List Token} {c : Char} {text after : List Char}

/-- What is read from a text: space is passed over, and then there is nothing left, or a token, or
reading stops. -/
theorem tokens_eq : vocabulary.tokens before text =
    match text.dropWhile isSpace with
    | [] => .ok before.reverse
    | c :: rest =>
      match vocabulary.token? (c :: rest) with
      | none => .error ⟨String.ofList (c :: rest), before.reverse⟩
      | some (token, after) => vocabulary.tokens (token :: before) after := by
  rw [tokens]
  split
  · rename_i blank
    simp only [blank]
  · rename_i solid
    simp only [solid]
    split
    · rename_i missing
      simp only [missing]
    · rename_i found
      simp only [found]

/-- At the end of a text, the tokens are those that have been read. -/
theorem tokens_nil : vocabulary.tokens before [] = .ok before.reverse := by
  rw [tokens_eq]
  rfl

/-- Space is passed over. -/
theorem tokens_space (h : isSpace c) :
    vocabulary.tokens before (c :: text) = vocabulary.tokens before text := by
  rw [tokens_eq, tokens_eq, List.dropWhile_cons_of_pos h]

/-- What `token?` finds is read, and reading goes on behind it. -/
theorem tokens_of_token? {token : Token} (solid : isSpace c = false)
    (h : vocabulary.token? (c :: text) = some (token, after)) :
    vocabulary.tokens before (c :: text) = vocabulary.tokens (token :: before) after := by
  have same : (c :: text).dropWhile isSpace = c :: text :=
    List.dropWhile_cons_of_neg (by simp [solid])
  rw [tokens_eq, same]
  simp only [h]

/-- Where `token?` finds nothing, reading stops, and the error shows what is left and what has
been read. -/
theorem tokens_of_missing (solid : isSpace c = false)
    (h : vocabulary.token? (c :: text) = none) :
    vocabulary.tokens before (c :: text) = .error ⟨String.ofList (c :: text), before.reverse⟩ := by
  have same : (c :: text).dropWhile isSpace = c :: text :=
    List.dropWhile_cons_of_neg (by simp [solid])
  rw [tokens_eq, same]
  simp only [h]

theorem tokens_bracket (b : Bracket) :
    vocabulary.tokens before (b.char :: text) = vocabulary.tokens (.bracket b :: before) text := by
  refine tokens_of_token? ?_ ?_
  · cases b <;> decide
  · simp only [token?, Bracket.ofChar?_eq_some_iff.mpr rfl]

/-- What stands before the next quote is the text of a literal. -/
theorem literal?_append {quoted : List Char} (h : '\'' ∉ quoted) :
    literal? (quoted ++ '\'' :: text) = some (.literal (String.ofList quoted), text) := by
  have plain : ∀ c ∈ quoted, decide (c ≠ '\'') = true := by
    intro c hc
    have : c ≠ '\'' := fun same => h (same ▸ hc)
    simpa using this
  have rest : (quoted ++ '\'' :: text).dropWhile (· ≠ '\'') = '\'' :: text := by
    rw [List.dropWhile_append_of_pos plain]
    rfl
  have front : (quoted ++ '\'' :: text).takeWhile (· ≠ '\'') = quoted := by
    rw [List.takeWhile_append_of_pos plain, List.takeWhile_cons_of_neg (by simp), List.append_nil]
  simp only [literal?, rest, front]

/-- A text between quotes is a literal.  There is no way to write a quote inside of one. -/
theorem tokens_literal {quoted : List Char} (h : '\'' ∉ quoted) :
    vocabulary.tokens before ('\'' :: (quoted ++ '\'' :: text)) =
      vocabulary.tokens (.literal (String.ofList quoted) :: before) text := by
  refine tokens_of_token? (by decide) ?_
  have other : Bracket.ofChar? '\'' = none := by decide
  simp only [token?, other]
  exact literal?_append h

end Vocabulary

/-! ### Operators -/

namespace Registry

open Vocabulary (isDelimiter startsDelimited dropStart?_eq_some_iff delimited?)

variable {registry : Registry} {before : List Token} {text : List Char}

theorem isReserved_of_isDelimiter {c : Char} (h : isDelimiter c) :
    Registration.isReserved c = true := by
  simp only [isDelimiter, Bool.or_eq_true] at h
  simp only [Registration.isReserved, Bool.or_eq_true]
  rcases h with ((space | quote) | paren) | brace
  · exact .inr (Text.isBlank_of_isSpace space)
  · simp [quote]
  · simp [paren]
  · simp [brace]

/-- The name of an operator has no delimiter in it. -/
theorem isDelimiter_eq_false (regular : registry.Regular) {operator : String × Fixity}
    (mem : operator ∈ registry.operators) {c : Char} (inside : c ∈ operator.1.toList) :
    isDelimiter c = false := by
  have unreserved := regular.unreserved operator mem c inside
  cases delimits : isDelimiter c with
  | false => rfl
  | true => simp [isReserved_of_isDelimiter delimits] at unreserved

/-- Two names without delimiters, each followed by one in the same text, are the same: both end at
the first delimiter. -/
theorem name_unique {name name' rest rest' : List Char}
    (h : ∀ c ∈ name, isDelimiter c = false) (h' : ∀ c ∈ name', isDelimiter c = false)
    (hrest : startsDelimited rest) (hrest' : startsDelimited rest')
    (same : name ++ rest = name' ++ rest') : name = name' ∧ rest = rest' := by
  -- If one name were longer, the delimiter behind the other one would be in it.
  rcases List.append_eq_append_iff.mp same with ⟨more, rfl, rfl⟩ | ⟨more, rfl, rfl⟩
  · cases more with
    | nil => exact ⟨(List.append_nil name).symm, rfl⟩
    | cons c more =>
        have := h' c (by simp)
        simp [startsDelimited, this] at hrest
  · cases more with
    | nil => exact ⟨List.append_nil name', rfl⟩
    | cons c more =>
        have := h c (by simp)
        simp [startsDelimited, this] at hrest'

/-- **Before a delimiter, an operator is read for what it is.**  The order of the vocabulary does
not matter, since no other name stands there. -/
theorem delimited?_operator (regular : registry.Regular) {name : String} {fixity : Fixity}
    (mem : (name, fixity) ∈ registry.operators) (h : startsDelimited text) :
    delimited? registry.vocabulary (name.toList ++ text) =
      some (.operator name fixity, text) := by
  have plain : ∀ operator ∈ registry.operators, ∀ c ∈ operator.1.toList,
      isDelimiter c = false := fun _ mem _ => isDelimiter_eq_false regular mem
  cases found : delimited? registry.vocabulary (name.toList ++ text) with
  | none =>
      have missed := List.findSome?_eq_none_iff.mp found (name.toList, fixity)
        (List.mem_map.mpr ⟨(name, fixity), mem, rfl⟩)
      simp [dropStart?_eq_some_iff.mpr rfl, h] at missed
  | some read =>
      -- Whatever is found first is delimited as well, so it has the same name.
      obtain ⟨token, rest⟩ := read
      obtain ⟨_, hentry, rfl, same, delimits⟩ := Vocabulary.entry_of_delimited? found
      obtain ⟨⟨name', fixity'⟩, mem', rfl⟩ := List.mem_map.mp hentry
      obtain ⟨hname, rfl⟩ := name_unique (plain _ mem) (plain _ mem') h delimits same
      obtain rfl := String.toList_inj.mp hname
      obtain rfl := regular.fixities name fixity fixity' mem mem'
      rw [String.ofList_toList]

/-- Where the name of an operator stands, there is no space, and the token there is an operator.
Quotes and brackets are reserved, so the other rules do not apply. -/
theorem exists_solid (regular : registry.Regular) {name : String} {fixity : Fixity}
    (mem : (name, fixity) ∈ registry.operators) (text : List Char) :
    ∃ c rest, name.toList ++ text = c :: rest ∧ Text.isSpace c = false ∧
      registry.vocabulary.token? (c :: rest) = registry.vocabulary.operator? (c :: rest) := by
  have nonempty : name.toList ≠ [] := by
    simpa using registry.named _ mem
  obtain ⟨c, rest, hname⟩ := List.exists_cons_of_ne_nil nonempty
  have unreserved : Registration.isReserved c = false :=
    regular.unreserved _ mem c (by simp [hname])
  simp only [Registration.isReserved, Bool.or_eq_false_iff, beq_eq_false_iff_ne] at unreserved
  obtain ⟨⟨⟨⟨⟨quote, openParen⟩, closeParen⟩, openBrace⟩, closeBrace⟩, blank⟩ := unreserved
  refine ⟨c, rest ++ text, by rw [hname, List.cons_append], ?_, ?_⟩
  · cases space : Text.isSpace c with
    | false => rfl
    | true => simp [Text.isBlank_of_isSpace space] at blank
  · have other : Bracket.ofChar? c = none := by
      simp [Bracket.ofChar?, openParen, closeParen, openBrace, closeBrace]
    simp only [Vocabulary.token?, other, if_neg quote]

/-- The name of an operator before a delimiter is a token. -/
theorem tokens_operator (regular : registry.Regular) {name : String} {fixity : Fixity}
    (mem : (name, fixity) ∈ registry.operators) (h : startsDelimited text) :
    registry.vocabulary.tokens before (name.toList ++ text) =
      registry.vocabulary.tokens (.operator name fixity :: before) text := by
  have read := delimited?_operator regular mem h
  obtain ⟨c, rest, same, solid, tried⟩ := exists_solid regular mem text
  rw [same] at read ⊢
  refine Vocabulary.tokens_of_token? solid (tried.trans ?_)
  rw [Vocabulary.operator?, read]

/-! ### Texts that spell tokens

Where a text spells its tokens whatever stands behind it, two such texts can be
put together. -/

/-- Wherever the text stands, it is read as these tokens. -/
def Writes (registry : Registry) (tokens : List Token) (text : String) : Prop :=
  ∀ before rest, registry.vocabulary.tokens before (text.toList ++ rest) =
    registry.vocabulary.tokens (tokens.reverse ++ before) rest

variable {a b : List Token} {s t : String}

/-- Texts that spell tokens can be put one behind the other. -/
theorem Writes.append (hs : registry.Writes a s) (ht : registry.Writes b t) :
    registry.Writes (a ++ b) (s ++ t) := by
  intro before rest
  rw [String.toList_append, List.append_assoc, hs, ht, List.reverse_append, List.append_assoc]

theorem writes_space : registry.Writes [] " " :=
  fun _ _ => Vocabulary.tokens_space rfl

theorem writes_open : registry.Writes [.bracket .openParen] "(" :=
  fun _ _ => Vocabulary.tokens_bracket .openParen

theorem writes_close : registry.Writes [.bracket .closeParen] ")" :=
  fun _ _ => Vocabulary.tokens_bracket .closeParen

/-- A quoted text spells a literal, if there is no quote in it. -/
theorem writes_literal (h : '\'' ∉ s.toList) : registry.Writes [.literal s] ("'" ++ s ++ "'") := by
  intro before rest
  have spelled : ("'" ++ s ++ "'").toList ++ rest = '\'' :: (s.toList ++ '\'' :: rest) := by
    rw [String.toList_append, String.toList_append, List.append_assoc, List.append_assoc]
    rfl
  rw [spelled, Vocabulary.tokens_literal h, String.ofList_toList]
  rfl

/-- An operator with a delimiter behind it spells itself, in front of what the rest spells. -/
theorem Writes.operator (regular : registry.Regular) {name : String} {fixity : Fixity}
    (mem : (name, fixity) ∈ registry.operators) (hs : registry.Writes a s)
    (h : startsDelimited s.toList) : registry.Writes (.operator name fixity :: a) (name ++ s) := by
  intro before rest
  have delimited : startsDelimited (s.toList ++ rest) := by
    cases hc : s.toList with
    | nil => simp [hc, startsDelimited] at h
    | cons c more => simpa [hc, startsDelimited] using h
  rw [String.toList_append, List.append_assoc, tokens_operator regular mem delimited, hs]
  simp

theorem Writes.tokenize (hs : registry.Writes a s) : registry.tokenize s = .ok a := by
  have read := hs [] []
  rw [List.append_nil, List.append_nil, Vocabulary.tokens_nil, List.reverse_reverse] at read
  exact read

end Registry

end RuleEngine
