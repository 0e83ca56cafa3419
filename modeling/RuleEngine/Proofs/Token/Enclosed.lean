import RuleEngine.Proofs.Token.RoundTrip

/-!
# Texts inside of brackets

A text that is read on its own need not be read in the same way in front of
another one: the name of an operator might go on there, or a delimiter might come
to follow it.  A closing bracket does neither.  No name contains it and it is no
delimiter, so what stands before it is read as if there were nothing behind.

The lemmas are about any such character that is foreign to all names.  They go through
the rules for tokens one by one: what follows on a name, whether a delimiter follows,
whether another operator follows.  Only success is carried over.  A text that is not
read on its own may well be read with more behind it, if a quote is missing in it.

## Main statements

* `operator?_append`, `token?_append` - a token is found in front of a closing
  bracket if it is found without it.
* `Registry.writes_enclosed` - hence a text with a closing bracket behind it spells
  its own tokens and the bracket, wherever it stands.
-/

namespace RuleEngine

/-- What is found among the images of some elements is the image of what is found among them. -/
theorem findSome?_eq_map {α β γ : Type} {f : α → Option β} {g : α → Option γ} {image : β → γ}
    {elements : List α} (h : ∀ a ∈ elements, g a = (f a).map image) :
    elements.findSome? g = (elements.findSome? f).map image := by
  rw [List.map_findSome?]
  induction elements with
  | nil => rfl
  | cons a rest ih =>
      have later := ih fun other mem => h other (List.mem_cons_of_mem a mem)
      rw [List.findSome?_cons, List.findSome?_cons, h a List.mem_cons_self, later]
      rfl

namespace Vocabulary

open Text (isSpace)

variable {vocabulary : Vocabulary} {c : Char} {rest : List Char}

/-- What follows on a name, with more behind it.  The character that begins the rest is not in the
name, so the name stands in the text itself or does not stand there at all. -/
theorem dropStart?_append {start : List Char} (foreign : c ∉ start) (text : List Char) :
    dropStart? start (text ++ c :: rest) = (dropStart? start text).map (· ++ c :: rest) := by
  induction start generalizing text with
  | nil => rfl
  | cons d start ih =>
      have other : d ≠ c := fun same => foreign (same ▸ List.mem_cons_self)
      have later : c ∉ start := fun mem => foreign (List.mem_cons_of_mem d mem)
      cases text with
      | nil =>
          rw [List.nil_append, dropStart?, dropStart?, if_neg other, Option.map_none]
      | cons e text =>
          simp only [List.cons_append, dropStart?]
          split
          · exact ih later text
          · rfl

/-- A literal ends at its quote, whatever follows. -/
theorem literal?_append_of_eq_some {text after more : List Char} {token : Token}
    (found : literal? text = some (token, after)) :
    literal? (text ++ more) = some (token, after ++ more) := by
  obtain ⟨quoted, plain, rfl, rfl⟩ := exists_of_literal? found
  rw [List.append_assoc, List.cons_append, literal?_append plain]

section Closing

variable (foreign : ∀ entry ∈ vocabulary, c ∉ entry.1)

include foreign

/-- Whether an operator before its operands stands at the start of a text is decided by the text
itself. -/
theorem startsBefore_append (text : List Char) :
    vocabulary.startsBefore (text ++ c :: rest) = vocabulary.startsBefore text := by
  unfold startsBefore
  rw [Bool.eq_iff_iff, List.any_eq_true, List.any_eq_true]
  refine exists_congr fun entry => and_congr_right fun mem => ?_
  dsimp only
  rw [dropStart?_append (foreign entry mem), Option.isSome_map]

variable (closing : isDelimiter c = false)

include closing

omit foreign in
/-- So is whether it starts with a delimiter, as the closing character is none. -/
theorem startsDelimited_append (text : List Char) :
    startsDelimited (text ++ c :: rest) = startsDelimited text := by
  cases text with
  | nil => exact closing
  | cons d text => rfl

/-- **The same operator is found**, or none.  Both rules for operators look at what follows on a
name, and both see the same. -/
theorem operator?_append (text : List Char) :
    vocabulary.operator? (text ++ c :: rest) =
      (vocabulary.operator? text).map fun found => (found.1, found.2 ++ c :: rest) := by
  have delimited : vocabulary.delimited? (text ++ c :: rest) =
      (vocabulary.delimited? text).map fun found => (found.1, found.2 ++ c :: rest) := by
    refine findSome?_eq_map fun entry mem => ?_
    dsimp only
    rw [dropStart?_append (foreign entry mem)]
    cases dropStart? entry.1 text with
    | none => rfl
    | some after =>
        simp only [Option.map_some, startsDelimited_append closing]
        split <;> rfl
  have chained : vocabulary.chained? (text ++ c :: rest) =
      (vocabulary.chained? text).map fun found => (found.1, found.2 ++ c :: rest) := by
    refine findSome?_eq_map fun entry mem => ?_
    dsimp only
    rw [dropStart?_append (foreign entry mem)]
    cases dropStart? entry.1 text with
    | none => split <;> rfl
    | some after =>
        simp only [Option.map_some, startsBefore_append foreign]
        split
        · split <;> rfl
        · rfl
  unfold operator?
  rw [delimited, chained]
  cases vocabulary.delimited? text <;> rfl

/-- A token is found in front of a closing character if it is found without it. -/
theorem token?_append {text after : List Char} {token : Token}
    (found : vocabulary.token? text = some (token, after)) :
    vocabulary.token? (text ++ c :: rest) = some (token, after ++ c :: rest) := by
  cases text with
  | nil => cases found
  | cons d text =>
      rw [List.cons_append]
      unfold token? at found ⊢
      dsimp only at found ⊢
      cases bracket : Bracket.ofChar? d with
      | some b =>
          rw [bracket] at found
          cases found
          rfl
      | none =>
          simp only [bracket] at found
          dsimp only
          by_cases quote : d = '\''
          · rw [if_pos quote] at found ⊢
            exact literal?_append_of_eq_some found
          · rw [if_neg quote] at found ⊢
            rw [← List.cons_append, operator?_append foreign closing, found]
            rfl

variable (rest) in
/-- **What is read alone is read in front of a closing character**, after any other tokens.  The
tokens are new ones, so reading does not depend on those before. -/
theorem tokens_append {before tokens : List Token} {text : List Char}
    (read : vocabulary.tokens before text = .ok tokens) :
    ∃ new, tokens = before.reverse ++ new ∧ ∀ before', vocabulary.tokens before'
      (text ++ c :: rest) = vocabulary.tokens (new.reverse ++ before') (c :: rest) := by
  induction before, text using Vocabulary.tokens.induct vocabulary with
  | case1 before text blank =>
      rw [tokens_eq, blank] at read
      cases read
      refine ⟨[], (List.append_nil _).symm, fun before' => ?_⟩
      rw [tokens_eq, List.dropWhile_append, blank, tokens_eq]
      rfl
  | case2 before text d others head missing =>
      rw [tokens_eq, head] at read
      simp only [missing] at read
      cases read
  | case3 before text d others head token after found _ ih =>
      rw [tokens_eq, head] at read
      simp only [found] at read
      obtain ⟨new, rfl, later⟩ := ih read
      refine ⟨token :: new, by simp, fun before' => ?_⟩
      have same : vocabulary.token? (d :: (others ++ c :: rest)) =
          some (token, after ++ c :: rest) := token?_append foreign closing found
      rw [tokens_eq, List.dropWhile_append, head]
      simp only [List.isEmpty_cons, Bool.false_eq_true, if_false, List.cons_append, same]
      rw [later, List.reverse_cons, List.append_assoc]
      rfl

end Closing

end Vocabulary

namespace Registry

open Vocabulary (isDelimiter)

variable {registry : Registry}

theorem isReserved_bracket (b : Bracket) : Registration.isReserved b.char = true := by
  cases b <;> decide

/-- **A text with a closing bracket behind it** spells its tokens and the bracket, wherever it
stands.  So a text can be put into brackets without looking into it. -/
theorem writes_enclosed (regular : registry.Regular) {text : String} {tokens : List Token}
    (read : registry.tokenize text = .ok tokens) {b : Bracket}
    (closing : isDelimiter b.char = false) :
    registry.Writes (tokens ++ [.bracket b]) (text ++ String.singleton b.char) := by
  have foreign : ∀ entry ∈ registry.vocabulary, b.char ∉ entry.1 := by
    intro entry mem inside
    obtain ⟨operator, hop, rfl⟩ := List.mem_map.mp mem
    have unreserved := regular.unreserved operator hop _ inside
    rw [isReserved_bracket] at unreserved
    cases unreserved
  intro before rest
  obtain ⟨new, rfl, enclosed⟩ := Vocabulary.tokens_append rest foreign closing read
  rw [String.toList_append, String.toList_singleton, List.append_assoc, List.singleton_append,
    enclosed, Vocabulary.tokens_bracket]
  simp

end Registry

end RuleEngine
