import RuleEngine.Registry.Basic
import RuleEngine.Text.Blank

/-!
# Building registries

A registry is built from a list of registrations.  They are checked as a whole,
rule by rule, and the first rule that is broken anywhere is reported:

1. every name and arity is allowed in itself;
2. no signature is registered twice;
3. no function name has more than one arity;
4. no operator name has more than one fixity;
5. every operator has a body.

## Main definitions

* `Registration` - a request to register an operator or a function.
* `RegistryError` - the rules that may be broken, with their wording.
* `Registry.assemble` - the registry of registrations that break no rule.
* `Registry.build` - the registry of checked registrations.

## Design notes

**All or nothing.**  There is no partial registry.  A broken rule anywhere makes
building fail, and the rules are checked in their order, each over all registrations, so
that which fault is reported does not depend on which registration comes first.

**Tables overwrite.**  Entries are put into the tables one after another, and a later
entry would take the place of an earlier one under the same key.  `Registry.assemble`
therefore asks for registrations without a fault, of which no two have the same
signature.
-/

namespace RuleEngine

/-- The largest arity. -/
def maxArity : Nat := 5

/-- A request to register something. -/
inductive Registration
  /-- An operator; the body may have been forgotten. -/
  | operator (name : String) (fixity : Fixity) (body? : Option Body)
    (desugar? : Option Desugaring)
  /-- A function. -/
  | function (name : String) (arity : Nat) (body : Body)

/-- Why a list of registrations makes no registry. -/
inductive RegistryError
  /-- The signature is registered twice. -/
  | duplicate (name : String) (arity : Nat)
  /-- The function name has all these arities. -/
  | ambiguousName (name : String) (arities : List Nat)
  /-- The operator name has both fixities. -/
  | conflictingFixity (name : String) (first second : Fixity)
  /-- The arity is above the largest one. -/
  | arityTooLarge (name : String) (arity : Nat)
  /-- The name is empty. -/
  | emptyName
  /-- The name contains a character that names must not contain. -/
  | reservedCharacter (name : String)
  /-- The operator has no body. -/
  | missingBody (name : String)
  deriving DecidableEq

/-- The wording of a broken rule. -/
def RegistryError.message : RegistryError → String
  | duplicate name arity =>
    "duplicate registration of '" ++ name ++ "' with arity " ++ toString arity
  | ambiguousName name arities =>
    "function '" ++ name ++ "' is registered with arities " ++
      ", ".intercalate (arities.map toString) ++ "; a bare name must resolve to one"
  | conflictingFixity name first second =>
    "operator '" ++ name ++ "' is registered as both " ++ first.render ++ " and " ++ second.render
  | arityTooLarge name arity =>
    "'" ++ name ++ "' has arity " ++ toString arity ++ "; at most " ++ toString maxArity ++
      " is supported"
  | emptyName => "registered names must not be empty"
  | reservedCharacter name => "name '" ++ name ++ "' contains a reserved character"
  | missingBody name => "operator '" ++ name ++ "' has no evaluation body"

namespace Registration

/-- The name to register. -/
def name : Registration → String
  | operator name _ _ _ => name
  | function name _ _ => name

/-- The number of operands or arguments. -/
def arity : Registration → Nat
  | operator _ fixity _ _ => fixity.arity
  | function _ arity _ => arity

/-- Operator or function. -/
def role : Registration → Role
  | operator _ fixity _ _ => .operator fixity
  | function _ _ _ => .function

/-- The signature to register. -/
def signature (r : Registration) : Signature :=
  ⟨r.name, r.arity⟩

/-- The registered operator with its fixity, if it is one. -/
def fixity? : Registration → Option (String × Fixity)
  | operator name fixity _ _ => some (name, fixity)
  | function _ _ _ => none

/-- The registered function with its arity, if it is one. -/
def function? : Registration → Option (String × Nat)
  | operator _ _ _ _ => none
  | function name arity _ => some (name, arity)

/-- The definition, if there is a body. -/
def definition? : Registration → Option Definition
  | operator name fixity body? desugar? =>
    body?.map fun body => ⟨⟨name, fixity.arity⟩, .operator fixity, body, desugar?⟩
  | function name arity body => some ⟨⟨name, arity⟩, .function, body, none⟩

/-- Whether a character has a meaning of its own in the text of expressions. -/
def isReserved (c : Char) : Bool :=
  c == '\'' || c == '(' || c == ')' || c == '\x7b' || c == '\x7d' || Text.isBlank c

/-- Whether the name contains a character that it must not contain.  In the
name of a function, `#` would look like the start of a stated arity. -/
def hasReserved (r : Registration) : Bool :=
  r.name.toList.any fun c => isReserved c || (r.role == .function && c == '#')

/-! ### The rules -/

/-- What is wrong with a registration in itself. -/
def fault? (r : Registration) : Option RegistryError :=
  if r.name = "" then some .emptyName
  else if r.hasReserved then some (.reservedCharacter r.name)
  else if maxArity < r.arity then some (.arityTooLarge r.name r.arity)
  else none

/-- The first signature that was seen before. -/
def duplicate? (seen : List Signature) : List Registration → Option RegistryError
  | [] => none
  | r :: rest =>
    if r.signature ∈ seen then some (.duplicate r.name r.arity)
    else duplicate? (r.signature :: seen) rest

/-- The arities with which a function name is registered. -/
def aritiesOf (name : String) (all : List Registration) : List Nat :=
  ((all.filterMap function?).filter (·.1 = name)).map (·.2)

/-- The first name that belongs to functions of several arities. -/
def ambiguous? (all : List Registration) : Option RegistryError :=
  all.findSome? fun r =>
    let arities := aritiesOf r.name all
    if 1 < arities.length then some (.ambiguousName r.name (arities.mergeSort (· ≤ ·)))
    else none

/-- The first operator whose name was last seen with another fixity; `seen`
holds the latest names first. -/
def conflict? (seen : List (String × Fixity)) : List (String × Fixity) → Option RegistryError
  | [] => none
  | (name, fixity) :: rest =>
    match seen.find? (·.1 = name) with
    | none => conflict? ((name, fixity) :: seen) rest
    | some (_, first) =>
      if first = fixity then conflict? ((name, fixity) :: seen) rest
      else some (.conflictingFixity name first fixity)

/-- The first operator without a body. -/
def missingBody? (all : List Registration) : Option RegistryError :=
  all.findSome? fun r => if r.definition?.isNone then some (.missingBody r.name) else none

/-- The first rule that is broken. -/
def firstFault? (all : List Registration) : Option RegistryError :=
  (all.findSome? fault?).or <|
    (duplicate? [] all).or <|
      (ambiguous? all).or <|
        (conflict? [] (all.filterMap fixity?)).or <|
          missingBody? all

end Registration

/-! ### The registry -/

/-- Whether one operator is tried before another: longer names are, by their
bytes, and among equally long ones the smaller name. -/
def Registry.triedBefore (a b : String × Fixity) : Bool :=
  b.1.utf8ByteSize < a.1.utf8ByteSize || (a.1.utf8ByteSize == b.1.utf8ByteSize && a.1 < b.1)

/-- Put an operator before the first one that is tried after it. -/
def Registry.place (operator : String × Fixity) :
    List (String × Fixity) → List (String × Fixity)
  | [] => [operator]
  | other :: rest =>
    if triedBefore operator other then operator :: other :: rest else other :: place operator rest

/-- Placing operators loses none of them and makes no others. -/
theorem Registry.mem_place {operator other : String × Fixity} {operators : List (String × Fixity)} :
    other ∈ place operator operators ↔ other = operator ∨ other ∈ operators := by
  induction operators with
  | nil => simp [place]
  | cons first rest ih =>
    rw [place]
    split
    · exact List.mem_cons
    · rw [List.mem_cons, ih, List.mem_cons, or_left_comm]

theorem Registry.mem_foldr_place {operator : String × Fixity}
    {operators : List (String × Fixity)} :
    operator ∈ operators.foldr place [] ↔ operator ∈ operators := by
  induction operators with
  | nil => exact Iff.rfl
  | cons first rest ih => rw [List.foldr_cons, mem_place, ih, List.mem_cons]

/-- If no rule is broken, operators have names. -/
theorem Registration.name_ne_of_sound {all : List Registration} (sound : firstFault? all = none)
    {operator : String × Fixity} (mem : operator ∈ all.filterMap fixity?) : operator.1 ≠ "" := by
  obtain ⟨r, hr, hfixity⟩ := List.mem_filterMap.mp mem
  have faultless := List.findSome?_eq_none_iff.mp (Option.or_eq_none_iff.mp sound).1 r hr
  cases r with
  | function name arity body => cases hfixity
  | operator name fixity body? desugar? =>
    obtain rfl := Option.some.inj hfixity
    rw [fault?] at faultless
    split at faultless
    · cases faultless
    · rename_i named
      exact named

/-- The registry of registrations that break no rule.  They are put into it one after
another, whatever is there already. -/
def Registry.assemble (all : List Registration) (sound : Registration.firstFault? all = none) :
    Registry where
  definitions := .ofList Definition.signature (all.filterMap Registration.definition?)
  operators := (all.filterMap Registration.fixity?).foldr place []
  named _ mem := Registration.name_ne_of_sound sound (mem_foldr_place.mp mem)
  directory := ⟨.ofList Prod.fst (all.filterMap Registration.function?)⟩

/-- The registry of a list of registrations, or the first rule they break. -/
def Registry.build (all : List Registration) : Except RegistryError Registry :=
  match sound : Registration.firstFault? all with
  | some fault => .error fault
  | none => .ok (assemble all sound)

/-- Without a fault, the registry is that of all registrations. -/
theorem Registry.build_of_firstFault? {all : List Registration}
    (sound : Registration.firstFault? all = none) : build all = .ok (assemble all sound) := by
  unfold build
  split
  · rename_i fault found
    rw [sound] at found
    cases found
  · rfl

end RuleEngine
