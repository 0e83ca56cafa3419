/-!
# JSON values

## Main definitions

* `Json` - a JSON value; objects keep the order of their members.
* `Json.truth?`, `Json.text?`, `Json.items?`, `Json.members?` - what is in a JSON value of one
  kind.
* `Json.member?` - the last member of an object with a given name.

## Design notes

**Objects are lists.**  The members of an object are kept in their order, and a name may
occur more than once, as in a JSON text.  What counts is the last member with a name;
readers that build a dictionary find this out by setting one member after another.

**Numbers are decimal.**  A number is kept as it is written, as an integer with so many
digits behind the point, so that none is rounded.  The codecs of values have no use for
numbers, and only counts are read from them.

**One kind at a time.**  For each kind of JSON value there is a function that gives what
is in it, and nothing for the other kinds.  Decoders are described in terms of these.
-/

namespace RuleEngine

/-- A JSON value. -/
inductive Json
  /-- The literal `null`. -/
  | null
  /-- A truth value. -/
  | bool (truth : Bool)
  /-- A number in decimal form: `mantissa` with its last `decimals` digits after
  the point. -/
  | number (mantissa : Int) (decimals : Nat)
  /-- A string. -/
  | string (text : String)
  /-- An array. -/
  | array (items : List Json)
  /-- An object. -/
  | object (members : List (String × Json))

namespace Json

instance : Inhabited Json := ⟨null⟩

/-- A count as a number. -/
def natural (n : Nat) : Json :=
  .number n 0

/-- The truth of a truth value. -/
def truth? : Json → Option Bool
  | bool truth => some truth
  | _ => none

/-- The text of a string. -/
def text? : Json → Option String
  | string text => some text
  | _ => none

/-- The elements of an array. -/
def items? : Json → Option (List Json)
  | array items => some items
  | _ => none

/-- The members of an object, in the order in which they stand there. -/
def members? : Json → Option (List (String × Json))
  | object members => some members
  | _ => none

/-- The last of the members with this name. -/
def member? (name : String) (members : List (String × Json)) : Option Json :=
  (members.reverse.find? (·.1 = name)).map (·.2)

/-- The value of a number that is written without a point and is a count of at
most 64 bits. -/
def count? : Json → Option Nat
  | .number (.ofNat n) 0 => if n < UInt64.size then some n else none
  | _ => none

end Json

end RuleEngine
