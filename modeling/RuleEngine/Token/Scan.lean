import RuleEngine.Text.Blank
import RuleEngine.Token.Basic

/-!
# From text to tokens

Tokens are read from left to right, with any amount of space between them.

* A bracket is a token.
* Text between two quotes is a literal; nothing in it has a special meaning.
* An operator's name is a token if a delimiter follows it: space, a quote or an
  opening bracket.  If that fails for all operators, the name of an operator
  that stands before its operands is a token also if the name of such an
  operator follows it, so that chains of them need no space.

Where several operators fit, the one that stands first in the vocabulary is
taken.

## Main definitions

* `Vocabulary` - the names of operators in the order in which they are tried.
* `Vocabulary.token?` - the token at the start of a text, and the rest.
* `Registry.tokenize` - the tokens of a text.

## Main statements

* `entry_of_delimited?`, `entry_of_chained?` - what each of the two rules for operators reads.
* `length_rest_lt` - a token takes up some text, hence `Vocabulary.tokens`
  terminates.

## Design notes

An operator without a name would be found everywhere and take up no text, and reading
would never come to an end.  A registry has no such operator, and a vocabulary carries
this with it.
-/

namespace RuleEngine

/-- The names of operators with their fixities, in the order in which they are
tried. -/
structure Vocabulary where
  /-- Names and fixities. -/
  names : List (List Char × Fixity)
  /-- There is some text in every name, so that a token takes up some text. -/
  named : ∀ entry ∈ names, entry.1 ≠ []

instance : Membership (List Char × Fixity) Vocabulary :=
  ⟨fun vocabulary entry => entry ∈ vocabulary.names⟩

/-- The operators of a registry, in its order. -/
def Registry.vocabulary (registry : Registry) : Vocabulary where
  names := registry.operators.map fun (name, fixity) => (name.toList, fixity)
  named entry mem := by
    obtain ⟨operator, inside, rfl⟩ := List.mem_map.mp mem
    exact fun empty => registry.named operator inside (String.toList_eq_nil_iff.mp empty)

namespace Vocabulary

open Text (isSpace)

/-- Whether a character may follow directly on the name of an operator. -/
def isDelimiter (c : Char) : Bool :=
  isSpace c || c == '\'' || c == '(' || c == '\x7b'

/-- Whether a text starts with a delimiter. -/
def startsDelimited : List Char → Bool
  | [] => false
  | c :: _ => isDelimiter c

/-- What follows on `start` at the start of a text. -/
def dropStart? : (start text : List Char) → Option (List Char)
  | [], text => some text
  | _ :: _, [] => none
  | c :: start, d :: text => if c = d then dropStart? start text else none

/-- Whether a text starts with the name of an operator that stands before its
operands. -/
def startsBefore (vocabulary : Vocabulary) (text : List Char) : Bool :=
  vocabulary.names.any fun (name, fixity) => fixity.isBefore && (dropStart? name text).isSome

/-- An operator at the start of a text that a delimiter follows. -/
def delimited? (vocabulary : Vocabulary) (text : List Char) : Option (Token × List Char) :=
  vocabulary.names.findSome? fun (name, fixity) =>
    match dropStart? name text with
    | none => none
    | some rest =>
      if startsDelimited rest then some (.operator (String.ofList name) fixity, rest) else none

/-- An operator before its operands, at the start of a text, that another such
operator follows. -/
def chained? (vocabulary : Vocabulary) (text : List Char) : Option (Token × List Char) :=
  vocabulary.names.findSome? fun (name, fixity) =>
    if fixity.isBefore then
      match dropStart? name text with
      | none => none
      | some rest =>
        if vocabulary.startsBefore rest then some (.operator (String.ofList name) fixity, rest)
        else none
    else none

/-- The operator at the start of a text. -/
def operator? (vocabulary : Vocabulary) (text : List Char) : Option (Token × List Char) :=
  match vocabulary.delimited? text with
  | some found => some found
  | none => vocabulary.chained? text

/-- The literal whose opening quote stands before a text. -/
def literal? (text : List Char) : Option (Token × List Char) :=
  match text.dropWhile (· ≠ '\'') with
  | [] => none
  | _ :: rest => some (.literal (String.ofList (text.takeWhile (· ≠ '\''))), rest)

/-- The token at the start of a text, and what follows on it. -/
def token? (vocabulary : Vocabulary) : List Char → Option (Token × List Char)
  | [] => none
  | c :: text =>
    match Bracket.ofChar? c with
    | some b => some (.bracket b, text)
    | none => if c = '\'' then literal? text else vocabulary.operator? (c :: text)

/-! ### What is read stands there -/

theorem dropStart?_eq_some_iff {start text rest : List Char} :
    dropStart? start text = some rest ↔ text = start ++ rest := by
  induction start generalizing text with
  | nil => simp [dropStart?]
  | cons c start ih =>
    cases text with
    | nil => simp [dropStart?]
    | cons d text =>
      rw [dropStart?, List.cons_append, List.cons.injEq]
      split
      · rename_i same
        rw [ih]
        simp [same]
      · rename_i differ
        simp [Ne.symm differ]

section

variable {vocabulary : Vocabulary} {text rest : List Char} {token : Token}

/-- What is read before a delimiter is the name of an operator, and the delimiter follows. -/
theorem entry_of_delimited? (h : vocabulary.delimited? text = some (token, rest)) :
    ∃ entry ∈ vocabulary, token = .operator (String.ofList entry.1) entry.2 ∧
      text = entry.1 ++ rest ∧ startsDelimited rest := by
  obtain ⟨entry, mem, read⟩ := List.exists_of_findSome?_eq_some h
  dsimp only at read
  split at read
  · cases read
  · rename_i after behind
    split at read
    · rename_i delimited
      cases read
      exact ⟨entry, mem, rfl, dropStart?_eq_some_iff.mp behind, delimited⟩
    · cases read

/-- What is read without a delimiter is the name of an operator that stands before its operands,
and another one follows. -/
theorem entry_of_chained? (h : vocabulary.chained? text = some (token, rest)) :
    ∃ entry ∈ vocabulary, token = .operator (String.ofList entry.1) entry.2 ∧
      entry.2.isBefore ∧ text = entry.1 ++ rest ∧ vocabulary.startsBefore rest := by
  obtain ⟨entry, mem, read⟩ := List.exists_of_findSome?_eq_some h
  dsimp only at read
  split at read
  · rename_i before
    split at read
    · cases read
    · rename_i after behind
      split at read
      · rename_i follows
        cases read
        exact ⟨entry, mem, rfl, before, dropStart?_eq_some_iff.mp behind, follows⟩
      · cases read
  · cases read

/-- What is found to be an operator, by whichever of the two rules, is in the vocabulary, and it
stands there. -/
theorem exists_of_operator? (h : vocabulary.operator? text = some (token, rest)) :
    ∃ name fixity, (name, fixity) ∈ vocabulary ∧ token = .operator (String.ofList name) fixity ∧
      text = name ++ rest := by
  unfold operator? at h
  split at h
  · rename_i found delimited
    obtain rfl := Option.some.inj h
    obtain ⟨entry, mem, same, stands, -⟩ := entry_of_delimited? delimited
    exact ⟨entry.1, entry.2, mem, same, stands⟩
  · obtain ⟨entry, mem, same, -, stands, -⟩ := entry_of_chained? h
    exact ⟨entry.1, entry.2, mem, same, stands⟩

/-! ### Every token takes up some text -/

theorem length_operator? (h : vocabulary.operator? text = some (token, rest)) :
    rest.length < text.length := by
  obtain ⟨name, fixity, mem, -, rfl⟩ := exists_of_operator? h
  have named : name ≠ [] := vocabulary.named _ mem
  have := List.length_pos_iff.mpr named
  rw [List.length_append]
  omega

end

theorem length_dropWhile_le (p : Char → Bool) (text : List Char) :
    (text.dropWhile p).length ≤ text.length :=
  (List.dropWhile_sublist p).length_le

theorem length_literal? {text rest : List Char} {token : Token}
    (h : literal? text = some (token, rest)) : rest.length < text.length := by
  unfold literal? at h
  split at h
  · simp at h
  · rename_i hdrop
    simp only [Option.some.injEq, Prod.mk.injEq] at h
    have := length_dropWhile_le (· ≠ '\'') text
    rw [hdrop, List.length_cons, h.2] at this
    omega

/-- What follows on a token is shorter than what starts with it. -/
theorem length_rest_lt {vocabulary : Vocabulary} {text rest : List Char} {token : Token}
    (h : vocabulary.token? text = some (token, rest)) : rest.length < text.length := by
  unfold token? at h
  split at h
  · simp at h
  · split at h
    · simp only [Option.some.injEq, Prod.mk.injEq] at h
      simp [h.2]
    · split at h
      · exact Nat.lt_succ_of_lt (length_literal? h)
      · exact length_operator? h

/-! ### All tokens of a text -/

/-- The tokens of a text, after those in `before` (latest first). -/
def tokens (vocabulary : Vocabulary) (before : List Token) (text : List Char) :
    Except TokenError (List Token) :=
  match ht : text.dropWhile isSpace with
  | [] => .ok before.reverse
  | c :: rest =>
    match h : vocabulary.token? (c :: rest) with
    | none => .error ⟨String.ofList (c :: rest), before.reverse⟩
    | some (token, after) =>
      -- Neither the space before a token nor the token itself is read again.
      have _shorter : after.length < text.length := by
        have := length_rest_lt h
        have := length_dropWhile_le isSpace text
        rw [ht] at this
        omega
      tokens vocabulary (token :: before) after
termination_by text.length

end Vocabulary

/-- The tokens of a text. -/
def Registry.tokenize (registry : Registry) (text : String) : Except TokenError (List Token) :=
  registry.vocabulary.tokens [] text.toList

end RuleEngine
