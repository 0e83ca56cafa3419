import RuleEngine.Operation.Failure
import RuleEngine.Table
import RuleEngine.Text.Numeral
import RuleEngine.Value.Callee

/-!
# The functions that have a name

A function is called by its name alone, or by `name#count`, which also states
how many arguments it takes.

## Main definitions

* `Directory` - the names of functions and their arities.
* `Directory.resolve` - the function that a name stands for.

## Design notes

**Names are enough.**  A function name has one arity in a registry, by a rule of
registration, and so the directory is a table from names to arities.  Stating the arity
as well is a check on the side of the author: it does not choose between functions.

**The last mark counts.**  A text is split at the last `#` in it, and only if a count
follows.  Otherwise the whole text is taken for a name, and looked up as such.
Registered names contain no `#`, so this makes a difference to the error only.
-/

namespace RuleEngine

/-- The names of functions, each with its arity. -/
structure Directory where
  /-- One arity for each name. -/
  arities : Table (Prod.fst : String × Nat → String)

/-- The parts of a text before and after the last `mark` in it. -/
def splitAtLast? (mark : Char) : List Char → Option (List Char × List Char)
  | [] => none
  | c :: rest =>
    match splitAtLast? mark rest with
    | some (front, back) => some (c :: front, back)
    | none => if c = mark then some ([], rest) else none

/-- A name and the arity stated after it.  What does not end in a count is a
name as a whole. -/
def statedArity (name : String) : String × Option Nat :=
  match splitAtLast? '#' name.toList with
  | none => (name, none)
  | some (base, suffix) =>
    match Text.count? suffix with
    | none => (name, none)
    | some arity => (String.ofList base, some arity)

namespace Directory

/-- The arity of the function with this name. -/
def arity? (directory : Directory) (name : String) : Option Nat :=
  (directory.arities.find? name).map (·.2)

/-- The function that a name stands for, with nothing bound. -/
def resolve (directory : Directory) (name : String) : Except OperationError FunctionValue :=
  let (base, stated?) := statedArity name
  match directory.arity? base, stated? with
  | none, _ => .error (.unknownFunction name)
  | some arity, none => .ok (.new ⟨base, arity⟩)
  | some arity, some stated =>
    if stated = arity then .ok (.new ⟨base, arity⟩) else .error (.otherArity base stated)

end Directory

end RuleEngine
