import RuleEngine.Parse.Failure

/-!
# Parsing by shifting and reducing

The parser keeps a stack of operators, operands and open brackets.  In each
action it either reduces an operator whose operands are complete to a node of
the pool, or it takes the next token.  Operators have no precedence: an operator
is reduced as soon as its last operand is there.

## Main definitions

* `Symbol`, `Configuration` - the stack, what is left of the tokens, and the pool.
* `Reduction`, `reduction?` - an operator with complete operands on the stack.
* `Configuration.reduce`, `Configuration.shift` - the two sorts of actions.
* `Configuration.step` - the next action.

## Design notes

An action that fails leaves the configuration as it found it, and its error
shows this configuration.

**The top of the stack decides.**  Whether an operator has all its operands can be seen
from the top three or four symbols, so there is no table of states.  An operand that
completes no operator stays where it is until the next token is taken.

**Everything is in the configuration.**  The pool is part of it, and so are the tokens
that are left.  Actions are functions from configurations to configurations, and what
the parser has done so far can be told from where it stands.
-/

namespace RuleEngine.Parse

/-- An entry of the parser's stack. -/
inductive Symbol
  /-- An operator that waits for operands. -/
  | operator (name : String) (fixity : Fixity)
  /-- An operand. -/
  | operand (x : Operand)
  /-- An open parenthesis. -/
  | openParen
  /-- An open brace. -/
  | openBrace
  deriving DecidableEq, Repr

/-- The form in which stack entries are shown. -/
def Symbol.render : Symbol → String
  | operator name _ => name
  | operand x => x.render
  | openParen => (Token.bracket .openParen).render
  | openBrace => (Token.bracket .openBrace).render

/-- The result of parsing. -/
structure Parsed where
  /-- The operand that is the whole expression. -/
  root : Operand
  /-- The nodes it refers to. -/
  pool : Pool
  deriving DecidableEq, Repr

/-- A parser between two actions. -/
structure Configuration where
  /-- The tokens that are left. -/
  remaining : List Token
  /-- The stack, top first. -/
  stack : List Symbol
  /-- The nodes made so far. -/
  pool : Pool
  deriving DecidableEq, Repr

/-- An operator whose operands are complete. -/
structure Reduction where
  /-- The name of the operator. -/
  name : String
  /-- Its operands, first to last. -/
  operands : List Operand
  /-- The stack below them. -/
  below : List Symbol
  deriving DecidableEq, Repr

/-- The operator whose last operand is on top of the stack. -/
def reduction? : List Symbol → Option Reduction
  | .operand x :: .operator name .prefix1 :: below => some ⟨name, [x], below⟩
  | .operand y :: .operator name .infix2 :: .operand x :: below => some ⟨name, [x, y], below⟩
  | .operand z :: .operand y :: .operand x :: .operator name .prefix3 :: below =>
    some ⟨name, [x, y, z], below⟩
  | _ => none

/-- The operator and its operands as a node. -/
def Reduction.plain (r : Reduction) : Node :=
  ⟨r.name, r.operands⟩

/-- A body in braces.  Braces around braces add nothing. -/
def braced : Operand → Operand
  | .block inner => .block inner
  | operand => .block operand

/-- What the actions of a parser do. -/
abbrev Action := Schedule.Step Unit Configuration Parsed ParseError

namespace Configuration

/-- Nothing is done yet. -/
def start (tokens : List Token) : Configuration :=
  ⟨tokens, [], .empty⟩

/-- What is shown of a configuration. -/
def snapshot (c : Configuration) : ParseSnapshot :=
  ⟨c.remaining, c.stack.reverse.map Symbol.render, c.pool⟩

/-- The next action fails. -/
def fail (c : Configuration) (fault : ParseFault) : Action :=
  .fail ⟨fault, c.snapshot⟩

/-- The reduced operator and its operands give way to a new node. -/
def replace (c : Configuration) (below : List Symbol) (node : Node) : Configuration :=
  { c with stack := .operand (.node c.pool.size) :: below, pool := c.pool.push node }

/-- Reduce an operator whose operands are complete. -/
def reduce (registry : Registry) (c : Configuration) (r : Reduction) : Action :=
  match registry.find? r.plain.signature with
  | none => c.fail (.noOperator r.name r.operands.length)
  | some d =>
    match d.nodeFor c.pool r.plain with
    | .error reason => c.fail (.rejected reason)
    | .ok node =>
      if c.pool.accepts node then .proceed (c.replace r.below node)
      else c.fail (.danglingNode r.name)

/-- Take the token before `rest`. -/
def shift (c : Configuration) (token : Token) (rest : List Token) : Action :=
  match token with
  | .literal text => .proceed ⟨rest, .operand (.literal text) :: c.stack, c.pool⟩
  | .operator name fixity => .proceed ⟨rest, .operator name fixity :: c.stack, c.pool⟩
  | .bracket .openParen => .proceed ⟨rest, .openParen :: c.stack, c.pool⟩
  | .bracket .openBrace => .proceed ⟨rest, .openBrace :: c.stack, c.pool⟩
  | .bracket .closeParen =>
    match c.stack with
    | .operand inner :: .openParen :: below => .proceed ⟨rest, .operand inner :: below, c.pool⟩
    | _ => c.fail (.unexpected .closeParen)
  | .bracket .closeBrace =>
    match c.stack with
    | .operand inner :: .openBrace :: below =>
      .proceed ⟨rest, .operand (braced inner) :: below, c.pool⟩
    | _ => c.fail (.unexpected .closeBrace)

/-- All tokens are taken and nothing can be reduced. -/
def finish (c : Configuration) : Action :=
  match c.stack with
  | [.operand root] => .done ⟨root, c.pool⟩
  | _ => c.fail .malformed

/-- The next action. -/
def step (registry : Registry) (c : Configuration) : Action :=
  match reduction? c.stack with
  | some r => c.reduce registry r
  | none =>
    match c.remaining with
    | token :: rest => c.shift token rest
    | [] => c.finish

end Configuration

end RuleEngine.Parse
