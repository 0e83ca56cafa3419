import RuleEngine.Registry.Basic

/-!
# Tokens

The pieces of which the text of an expression consists.

## Main definitions

* `Token` - a literal, an operator with its fixity, or a bracket.
* `Token.render`, `Token.renderAll` - tokens as text.
* `TokenError` - text that no token starts with.

## Design notes

**Fixities are part of tokens.**  A name of an operator has one fixity in a registry.
It is looked up when the name is read, so that the parser sees from the tokens alone how
many operands are to come.

**Texts without their quotes.**  A literal is kept as the text between its quotes, and
is written with quotes again.  There is no escape, so a text with a quote in it is not a
literal.

**Spaces in between.**  Tokens are shown with single spaces between them.  That is the
form in which errors show them, and it can be read again if the last token is no
operator.
-/

namespace RuleEngine

/-- A parenthesis or a brace. -/
inductive Bracket
  /-- The character `(`. -/
  | openParen
  /-- The character `)`. -/
  | closeParen
  /-- The opening brace. -/
  | openBrace
  /-- The closing brace. -/
  | closeBrace
  deriving DecidableEq, Repr

namespace Bracket

/-- The character of a bracket. -/
def char : Bracket → Char
  | openParen => '('
  | closeParen => ')'
  | openBrace => '\x7b'
  | closeBrace => '\x7d'

/-- The bracket of a character. -/
def ofChar? (c : Char) : Option Bracket :=
  if c = '(' then some openParen
  else if c = ')' then some closeParen
  else if c = '\x7b' then some openBrace
  else if c = '\x7d' then some closeBrace
  else none

theorem ofChar?_eq_some_iff {c : Char} {b : Bracket} : ofChar? c = some b ↔ c = b.char := by
  constructor
  · unfold ofChar?
    intro h
    repeat' split at h
    all_goals simp_all [char]
    all_goals subst h; rfl
  · rintro rfl
    cases b <;> rfl

end Bracket

/-- A piece of the text of an expression. -/
inductive Token
  /-- A quoted literal, without its quotes. -/
  | literal (text : String)
  /-- The name of an operator. -/
  | operator (name : String) (fixity : Fixity)
  /-- A bracket. -/
  | bracket (b : Bracket)
  deriving DecidableEq, Repr

namespace Token

/-- The text of a token. -/
def render : Token → String
  | literal text => "'" ++ text ++ "'"
  | operator name _ => name
  | bracket b => String.singleton b.char

/-- The texts of tokens, with a space between them. -/
def renderAll (tokens : List Token) : String :=
  " ".intercalate (tokens.map render)

end Token

/-- Text that no token starts with. -/
structure TokenError where
  /-- The text from that place on. -/
  remainder : String
  /-- The tokens before it. -/
  tokens : List Token
  deriving DecidableEq, Repr

/-- The wording of the error. -/
def TokenError.message (e : TokenError) : String :=
  "token error: Can't tokenize the remaining expression: `" ++ e.remainder ++ "`"

end RuleEngine
