/-!
# Decimal counts in text

The form of a count: an optional plus sign and at least one of the ten digits,
leading zeros allowed, with a value of at most 64 bits.

## Main definitions

* `digit?` - the value of a digit.
* `count?` - the value of a text of that form.

## Design notes

**Only the ten digits.**  Other characters that Unicode counts as digits are not
accepted, nor is a minus sign, nor a point.

**The limit is checked at the end.**  The value is computed without any limit and is
refused if it does not fit into 64 bits.  Since values only grow from digit to digit,
that comes to the same as to stop as soon as one is too large.
-/

namespace RuleEngine.Text

/-- The value of one of the ten decimal digits. -/
def digit? (c : Char) : Option Nat :=
  if '0' ≤ c ∧ c ≤ '9' then some (c.toNat - '0'.toNat) else none

/-- The value of digits that follow a number `n`. -/
def digits? (n : Nat) : List Char → Option Nat
  | [] => some n
  | c :: rest =>
    match digit? c with
    | some d => digits? (10 * n + d) rest
    | none => none

/-- The value of at least one digit. -/
def unsigned? : List Char → Option Nat
  | [] => none
  | digits => digits? 0 digits

/-- The value of a count of at most 64 bits. -/
def count? (text : List Char) : Option Nat :=
  let value? := match text with
    | '+' :: digits => unsigned? digits
    | digits => unsigned? digits
  value?.filter (· < UInt64.size)

end RuleEngine.Text
