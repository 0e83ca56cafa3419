import RuleEngine.Host
import RuleEngine.Json.Basic
import RuleEngine.Value.Callee

/-!
# Codecs made from declarations

Values and host data are written as JSON and read from it, but nothing says how, other than
the declarations of these types.  A generator makes the codec of a type out of the
declaration: for an enumeration, out of the order in which the variants are declared and the
marks they carry.  The generator, and the codecs of truth values, strings, sequences and
maps that it falls back on, belong to another library.

So codecs are parameters here.  A `Serialization` is one codec for each type that is
involved, and `Serialization.Documented` is what their documentation says of them, one clause
for each type.  None of the clauses speaks about values at any depth of lists: the clause for
values refers to the codec for lists of values, which refers back to the one for values.

## Main definitions

* `Codec` - how data of a type is written, and how it is read.
* `Variant`, `Treatment` - a declared variant of an enumeration, and the mark it carries.
* `Codec.IsUntagged`, `Codec.IsTransparent` - the codec that is made for an enumeration
  whose variants are not named in the JSON form, and for a structure that is written as its
  only field.
* `Codec.IsBoolean`, `Codec.IsText`, `Codec.IsSequence`, `Codec.IsMapping` - codecs of types that
  are not declared here.
* `Value.variants` - the variants of values as they are declared.
* `Serialization`, `Serialization.Documented` - all codecs, and what is known of them.

## Design notes

Why something is not written or not read is left out.  All that matters of an untagged
enumeration is whether the codec of a variant takes a JSON value, since an attempt that fails
leads on to the next variant and its reason is forgotten.
-/

namespace RuleEngine

/-- How data of a type is written as JSON, and how JSON is read as such data. -/
@[ext] structure Codec (α : Type) where
  /-- The form in which the data is written, if it is. -/
  write? : α → Option Json
  /-- The data that is read, if any is. -/
  read? : Json → Option α

/-- The mark that a variant carries. -/
inductive Treatment (β : Type)
  /-- There is none: the variant is written as what it holds, which has this codec. -/
  | plain (codec : Codec β)
  /-- The variant takes no part in writing and reading. -/
  | skipped

/-- A declared variant of an enumeration. -/
structure Variant (α : Type) where
  /-- What the variant holds. -/
  Field : Type
  /-- The data that is made of it. -/
  make : Field → α
  /-- The mark of the variant. -/
  treatment : Treatment Field

namespace Variant

variable {α : Type}

/-- The form of what the variant holds, without a word about the variant. -/
def write? (variant : Variant α) (field : variant.Field) : Option Json :=
  match variant.treatment with
  | .plain codec => codec.write? field
  | .skipped => none

/-- The attempt to read data of this variant. -/
def read? (variant : Variant α) (json : Json) : Option α :=
  match variant.treatment with
  | .plain codec => (codec.read? json).map variant.make
  | .skipped => none

end Variant

namespace Codec

variable {α β : Type}

/-! ### Codecs of declared types -/

/-- The codec of an enumeration with these variants, none of which is named in the form of its
data.  To read is to try one variant after another, in the order of their declaration. -/
structure IsUntagged (codec : Codec α) (variants : List (Variant α)) : Prop where
  /-- Data of a variant is written as the variant says. -/
  write : ∀ variant ∈ variants, ∀ field, codec.write? (variant.make field) = variant.write? field
  /-- The first attempt that succeeds decides what is read. -/
  read : ∀ json, codec.read? json = variants.findSome? fun variant => variant.read? json

/-- The codec of a structure that is written as its only field. -/
structure IsTransparent (codec : Codec α) (make : β → α) (field : Codec β) : Prop where
  /-- What is written is the field. -/
  write : ∀ b, codec.write? (make b) = field.write? b
  /-- What is read is the field. -/
  read : ∀ json, codec.read? json = (field.read? json).map make

/-! ### Codecs of other types -/

/-- Truth values are JSON truth values, and nothing else is. -/
structure IsBoolean (codec : Codec Bool) : Prop where
  /-- Any truth value is written. -/
  write : ∀ truth, codec.write? truth = some (.bool truth)
  /-- A truth value is read from its own form only. -/
  read : ∀ json, codec.read? json = json.truth?

/-- Texts are JSON strings, and nothing else is. -/
structure IsText (codec : Codec String) : Prop where
  /-- Any text is written. -/
  write : ∀ text, codec.write? text = some (.string text)
  /-- A text is read from a string only. -/
  read : ∀ json, codec.read? json = json.text?

/-- Sequences are arrays.  One element that cannot be written or read is enough to fail. -/
structure IsSequence (codec : Codec (List α)) (element : Codec α) : Prop where
  /-- The elements are written from first to last. -/
  write : ∀ items, codec.write? items = (items.mapM element.write?).map .array
  /-- The elements are read from first to last. -/
  read : ∀ json, codec.read? json = json.items?.bind fun items => items.mapM element.read?

/-- Ordered maps are objects.  One member that cannot be written or read is enough to
fail. -/
structure IsMapping (codec : Codec (Dictionary α)) (element : Codec α) : Prop where
  /-- The entries are written in their order, each with its name. -/
  write : ∀ d, codec.write? d =
    (d.entries.mapM fun entry => (element.write? entry.2).map (Prod.mk entry.1)).map .object
  /-- The members are read from first to last, and each of them is set at once in what has been
  read before. -/
  read : ∀ json, codec.read? json = json.members?.bind fun members =>
    members.foldlM (fun d member => (element.read? member.2).map (d.insert member.1)) .empty

end Codec

/-! ### Values and host data -/

/-- The variants of values in the order of their declaration, and the mark that each of
them carries: what can be applied and what is only joined for a call is skipped. -/
def Value.variants (truth : Codec Bool) (text : Codec String) (items : Codec (List Value)) :
    List (Variant Value) :=
  [⟨Bool, .bool, .plain truth⟩, ⟨String, .str, .plain text⟩, ⟨List Value, .list, .plain items⟩,
    ⟨FunctionValue, FunctionValue.toValue, .skipped⟩,
    ⟨SubExpression, SubExpression.toValue, .skipped⟩, ⟨List Value, .args, .skipped⟩]

/-- The record whose only field is this dictionary. -/
def Record.ofEntries (entries : Dictionary Value) : Record :=
  entries

/-- The codecs of all types that are involved. -/
structure Serialization where
  /-- That of truth values. -/
  truth : Codec Bool
  /-- That of texts. -/
  text : Codec String
  /-- That of lists of values. -/
  items : Codec (List Value)
  /-- That of values. -/
  value : Codec Value
  /-- That of the entries of host data. -/
  entries : Codec (Dictionary Value)
  /-- That of host data. -/
  record : Codec Record

/-- All codecs do what their documentation says.  The clauses for values and for lists of
values refer to each other, as the types do. -/
structure Serialization.Documented (s : Serialization) : Prop where
  /-- Truth values are truth values. -/
  truth : s.truth.IsBoolean
  /-- Texts are strings. -/
  text : s.text.IsText
  /-- Lists of values are sequences. -/
  items : s.items.IsSequence s.value
  /-- Values are an untagged enumeration. -/
  value : s.value.IsUntagged (Value.variants s.truth s.text s.items)
  /-- The entries of host data are an ordered map. -/
  entries : s.entries.IsMapping s.value
  /-- Host data is a transparent structure. -/
  record : s.record.IsTransparent Record.ofEntries s.entries

end RuleEngine
