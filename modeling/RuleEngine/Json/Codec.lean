import RuleEngine.Engine.Config
import RuleEngine.Json.Serialization

/-!
# Data as JSON

A serialization that can be run.  Its codecs of truth values, texts, sequences and maps are
written down as documented; that of values tries the variants which are not skipped one
after another.  Configurations have a form too, in which members may be missing.

## Main definitions

* `Codec.boolean`, `Codec.text`, `Codec.sequence`, `Codec.mapping` - codecs of types that are
  not declared here.
* `Value.ofJson?`, `Value.toJson?` - values.
* `Serialization.reference` - all of these codecs, and that of host data.
* `Record.ofJson?`, `Record.toJson?` - host data, as objects.
* `Config.ofJson?`, `Config.toJson` - configurations, as objects.

## Design notes

**The codec of values is nested.**  A list has values as its elements, so the codec of
values reads and writes lists by calling itself.  As functions of this kind have to be
seen to terminate, elements are gone through by functions of their own; that they do
what the codec of sequences does is a lemma.

**Variants in their order.**  A JSON value is given to the variants one after another,
and the first one that can read it decides.  Variants that are skipped are not asked,
and are not written.

**Configurations.**  Members that are missing have their defaults, and members with
other names are passed over.  A configuration that is read is checked like any other
when an engine is made of it.
-/

namespace RuleEngine

namespace Codec

variable {α : Type}

/-- Truth values as they are. -/
def boolean : Codec Bool where
  write? truth := some (.bool truth)
  read? := Json.truth?

/-- Texts as strings. -/
def text : Codec String where
  write? text := some (.string text)
  read? := Json.text?

/-- Sequences as arrays. -/
def sequence (element : Codec α) : Codec (List α) where
  write? items := (items.mapM element.write?).map .array
  read? json := json.items?.bind fun items => items.mapM element.read?

/-- Ordered maps as objects. -/
def mapping (element : Codec α) : Codec (Dictionary α) where
  write? d :=
    (d.entries.mapM fun entry => (element.write? entry.2).map (Prod.mk entry.1)).map .object
  read? json := json.members?.bind fun members =>
    members.foldlM (fun d member => (element.read? member.2).map (d.insert member.1)) .empty

end Codec

namespace Value

mutual

/-- The value that a JSON value stands for: a truth value, or else a text, or else a list. -/
def ofJson? (json : Json) : Option Value :=
  ((Codec.boolean.read? json).map bool).or <|
    ((Codec.text.read? json).map str).or <|
      match json with
      | .array items => (ofJsonAll? items).map list
      | _ => none

/-- The values of the elements of an array. -/
def ofJsonAll? : List Json → Option (List Value)
  | [] => some []
  | first :: rest =>
    match ofJson? first, ofJsonAll? rest with
    | some v, some vs => some (v :: vs)
    | _, _ => none

end

mutual

/-- The JSON form of a value. -/
def toJson? : Value → Option Json
  | bool truth => Codec.boolean.write? truth
  | str text => Codec.text.write? text
  | list items => (toJsonAll? items).map .array
  | function _ _ => none
  | subExpr _ _ => none
  | args _ => none

/-- The JSON forms of the elements of a list. -/
def toJsonAll? : List Value → Option (List Json)
  | [] => some []
  | first :: rest =>
    match toJson? first, toJsonAll? rest with
    | some j, some js => some (j :: js)
    | _, _ => none

end

/-- The codec of values. -/
def codec : Codec Value :=
  ⟨toJson?, ofJson?⟩

end Value

/-- The codecs above. -/
def Serialization.reference : Serialization where
  truth := .boolean
  text := .text
  items := .sequence Value.codec
  value := Value.codec
  entries := .mapping Value.codec
  record := .mapping Value.codec

namespace Record

/-- The host data that an object holds. -/
def ofJson? : Json → Option Record :=
  Serialization.reference.record.read?

/-- The host data as an object. -/
def toJson? : Record → Option Json :=
  Serialization.reference.record.write?

end Record

namespace Config

/-- A count of an object, or what holds if it has no such member. -/
def countOr? (name : String) (default : Nat) (members : List (String × Json)) : Option Nat :=
  match Json.member? name members with
  | none => some default
  | some json => json.count?

/-- The configuration that an object describes; other members do not matter. -/
def ofJson? : Json → Option Config
  | .object members => do
    let usual : Config := {}
    let stepBudget ← countOr? "step_budget" usual.stepBudget members
    let parseBudget ← countOr? "parse_budget" usual.parseBudget members
    let batchSize ← countOr? "batch_size" usual.batchSize members
    return { stepBudget, parseBudget, batchSize }
  | _ => none

/-- The configuration as an object. -/
def toJson (config : Config) : Json :=
  .object [("step_budget", .natural config.stepBudget),
    ("parse_budget", .natural config.parseBudget), ("batch_size", .natural config.batchSize)]

end Config

end RuleEngine
