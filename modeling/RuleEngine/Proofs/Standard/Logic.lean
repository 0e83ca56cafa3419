import RuleEngine.Proofs.Parse.Grammar
import RuleEngine.Host

/-!
# Trees of logic

The operators on truth and the conditionals form a language of their own: it has
no names, functions or lists, and each expression of it has a value, which is a
truth value or one of its literals.  Here its trees are given with their text
and, without any engine, with their meaning.

Literals are texts without quotes, since a quote would end them.  The truth of a literal
is a matter of the host, except for the two literals that are named like truth values.
So the meaning of a tree depends on a host, and it is a recursive function: a connective
has the value of one of its operands, and a conditional that of one of its branches.

## Main definitions

* `Tree` - literals, operators on truth, and conditionals in three forms.
* `Tree.render` - the text of a tree, with parentheses around every operation.
* `Meaning`, `Tree.model` - what a tree means, by recursion over it.
* `Tree.phrase` - the derivation of its text.
* `Tree.applications` - how many operators the text has.
-/

namespace RuleEngine.Logic

/-- A text that may stand between quotes. -/
structure Literal where
  /-- The text. -/
  text : String
  /-- It does not end before its end. -/
  unquoted : '\'' ∉ text.toList

/-- The operators with one operand. -/
inductive Unary
  | negation
  | truth
  deriving DecidableEq, Repr

/-- The operators with two operands, with both spellings of the last two. -/
inductive Binary
  | exclusion
  | equality
  | conjunction
  | disjunction
  | andWord
  | orWord
  deriving DecidableEq, Repr

/-- The forms of conditionals. -/
inductive Form
  /-- The form `if c then x else y`. -/
  | words
  /-- The form `c ? x : y`. -/
  | signs
  /-- The form `?: c x y`. -/
  | front
  deriving DecidableEq, Repr

/-- An expression of logic. -/
inductive Tree
  | literal (l : Literal)
  | unary (op : Unary) (x : Tree)
  | binary (op : Binary) (x y : Tree)
  | choice (form : Form) (c x y : Tree)

/-! ### Text -/

/-- The name of an operator. -/
def Unary.name : Unary → String
  | negation => "!"
  | truth => "bool"

/-- What stands between an operator and its operand. -/
def Unary.gap : Unary → String
  | negation => ""
  | truth => " "

/-- The name of an operator. -/
def Binary.name : Binary → String
  | exclusion => "^"
  | equality => "=="
  | conjunction => "&&"
  | disjunction => "||"
  | andWord => "and"
  | orWord => "or"

/-- The text of a tree. -/
def Tree.render : Tree → String
  | literal l => "'" ++ l.text ++ "'"
  | unary op x => "(" ++ op.name ++ op.gap ++ x.render ++ ")"
  | binary op x y => "(" ++ x.render ++ " " ++ op.name ++ " " ++ y.render ++ ")"
  | choice .words c x y =>
    "(if " ++ c.render ++ " then " ++ x.render ++ " else " ++ y.render ++ ")"
  | choice .signs c x y => "(" ++ c.render ++ " ? " ++ x.render ++ " : " ++ y.render ++ ")"
  | choice .front c x y => "(?: " ++ c.render ++ " " ++ x.render ++ " " ++ y.render ++ ")"

/-! ### Meaning -/

/-- What a tree means. -/
inductive Meaning
  /-- A truth value. -/
  | truth (b : Bool)
  /-- A literal. -/
  | text (s : String)
  deriving DecidableEq, Repr

namespace Meaning

/-- The meaning as a value. -/
def toValue : Meaning → Value
  | truth b => .bool b
  | text s => .str s

/-- Whether a meaning counts as true: a literal says so itself, or it is a key of
the host. -/
def holds (host : Host) : Meaning → Bool
  | truth b => b
  | text "true" => true
  | text "false" => false
  | text key => host.has key

/-- The truth of a meaning is that of the value which stands for it. -/
theorem isTruthy_toValue (host : Host) (m : Meaning) : m.toValue.isTruthy host = m.holds host := by
  cases m with
  | truth b => rfl
  | text s =>
      simp only [toValue, Value.isTruthy]
      by_cases yes : s = "true"
      · subst yes
        rfl
      · by_cases no : s = "false"
        · subst no
          rfl
        · simp [holds, yes, no]

/-- Different meanings have different values, so meanings may be compared instead of values. -/
theorem toValue_inj {a b : Meaning} : a.toValue = b.toValue ↔ a = b := by
  cases a <;> cases b <;> simp [toValue]

end Meaning

/-- What an operator makes of the meaning of its operand. -/
def Unary.apply (host : Host) (op : Unary) (x : Meaning) : Meaning :=
  match op with
  | negation => .truth (!x.holds host)
  | truth => .truth (x.holds host)

/-- What an operator makes of the meanings of its operands. -/
def Binary.apply (host : Host) (op : Binary) (x y : Meaning) : Meaning :=
  match op with
  | exclusion => .truth (x.holds host != y.holds host)
  | equality => .truth (x = y)
  | conjunction | andWord => if x.holds host then y else x
  | disjunction | orWord => if x.holds host then x else y

/-- The meaning of a tree. -/
def Tree.model (host : Host) : Tree → Meaning
  | literal l => .text l.text
  | unary op x => op.apply host (x.model host)
  | binary op x y => op.apply host (x.model host) (y.model host)
  | choice _ c x y => if (c.model host).holds host then x.model host else y.model host

/-! ### Derivation -/

/-- The derivation of the text of a tree. -/
def Tree.phrase : Tree → Parse.Phrase .atom
  | literal l => .literal l.text
  | unary op x => .paren (.single (.prefix1 op.name x.phrase))
  | binary op x y => .paren (.infix2 (.single x.phrase) op.name y.phrase)
  | choice .words c x y =>
    .paren (.single (.prefix3 "if" (.single c.phrase) (.single (.prefix1 "then" x.phrase))
      (.prefix1 "else" y.phrase)))
  | choice .signs c x y => .paren (.infix2 (.infix2 (.single c.phrase) "?" x.phrase) ":" y.phrase)
  | choice .front c x y =>
    .paren (.single (.prefix3 "?:" (.single c.phrase) (.single x.phrase) y.phrase))

/-- The node of an operator with two operands.  The second one waits if it may not
be needed, and the words are other spellings of the signs. -/
def Binary.node (op : Binary) (x y : Operand) : Node :=
  match op with
  | exclusion => ⟨"^", [x, y]⟩
  | equality => ⟨"==", [x, y]⟩
  | conjunction | andWord => ⟨"&&", [x, .skip y]⟩
  | disjunction | orWord => ⟨"||", [x, .skip y]⟩

/-- The number of operators in the text of a tree. -/
def Tree.applications : Tree → Nat
  | literal _ => 0
  | unary _ x => x.applications + 1
  | binary _ x y => x.applications + y.applications + 1
  | choice .words c x y => c.applications + x.applications + y.applications + 3
  | choice .signs c x y => c.applications + x.applications + y.applications + 2
  | choice .front c x y => c.applications + x.applications + y.applications + 1

end RuleEngine.Logic
