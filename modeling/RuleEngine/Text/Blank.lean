/-!
# Blank characters

Two sets of characters count as blank.  Between the tokens of an expression only
the four `isSpace` characters may stand.  Registered names, however, must not
contain any character with the Unicode property `White_Space`, which is
`isBlank`.

## Main statements

* `isBlank_of_isSpace` - the first set is part of the second.

## Design notes

**Why two sets.**  A name with an exotic blank in it could be read, but nobody could
tell from the text where it ends; so it is refused when it is registered.  Between
tokens, on the other hand, such a character is not passed over, and reading stops there
with an error that shows it.

**The ranges are those of the standard.**  They are a table, ten ranges in all, and
membership is computed.  Nothing depends on how characters are classified elsewhere.
-/

namespace RuleEngine.Text

/-- Space, tab, line feed and carriage return. -/
def isSpace (c : Char) : Bool :=
  c == ' ' || c == '\t' || c == '\n' || c == '\r'

/-- The ranges of the Unicode property `White_Space`, both ends included. -/
def blankRanges : List (Nat × Nat) :=
  [(0x0009, 0x000d), (0x0020, 0x0020), (0x0085, 0x0085), (0x00a0, 0x00a0), (0x1680, 0x1680),
    (0x2000, 0x200a), (0x2028, 0x2029), (0x202f, 0x202f), (0x205f, 0x205f), (0x3000, 0x3000)]

/-- Whether a character has the Unicode property `White_Space`. -/
def isBlank (c : Char) : Bool :=
  blankRanges.any fun (first, last) => first ≤ c.toNat && c.toNat ≤ last

theorem isBlank_of_isSpace {c : Char} (h : isSpace c) : isBlank c := by
  simp only [isSpace, Bool.or_eq_true, beq_iff_eq] at h
  rcases h with ((rfl | rfl) | rfl) | rfl <;> decide

end RuleEngine.Text
