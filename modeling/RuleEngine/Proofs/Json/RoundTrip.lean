import Mathlib.Data.List.Forall2
import RuleEngine.Json.Codec

/-!
# Data written as JSON and read again

The JSON form of a value has no mark of the value's kind.  It does not need one: truth
values, strings and arrays are told apart by their shape, at any depth, and of the two
kinds of values that are sequences only lists are written.  So writing and reading are
the two directions of one relation between values and JSON values, in whatever way the
codecs are made, as long as they do what is documented.

For host data there is one difference between the two directions.  The members of an
object may stand in any order, and several of them may have the same name.  What is
written has its members in order, one for each name, which is the last one that was read.

## Main definitions

* `Value.Inside`, `Json.Inside` - what is in a value at any depth of lists or arrays.
* `Value.Formless`, `Json.Foreign` - values that are not written, and JSON values that are
  not read.
* `Value.Written`, `Record.Writes` - the relation between values and their JSON forms.

## Main statements

* `Serialization.Documented.write?_eq_some_iff`, `Serialization.Documented.read?_eq_some_iff` -
  by any documented serialization, values are written and read by that relation.
* `Serialization.Documented.value_eq` - any two documented serializations agree on values.
* `Value.exists_written_iff`, `Json.exists_written_iff` - what is in it and what is not.
* `Serialization.documented_reference` - there is such a serialization.
* `Record.json_round_trip` - host data is read as it was written, and what was read is
  written as it was, up to the order of members and those that do not count.

## Design notes

The clauses of `Serialization.Documented` are about one level of a value.  What they say
about values at any depth is found by an induction, on the value where it is written and on
the JSON value where it is read.  In both directions, the order in which variants are tried
has to be gone through once: a later variant is read only from what all earlier ones refuse.
-/

namespace RuleEngine

/-! ### Parts of values -/

/-- The value `part` is in a value, at any depth of lists. -/
inductive Value.Inside (part : Value) : Value → Prop
  | self : Inside part part
  | element {v : Value} {items : List Value} : v ∈ items → Inside part v →
      Inside part (.list items)

/-- The value has no JSON form of its own. -/
def Value.Formless : Value → Prop
  | function _ _ => True
  | subExpr _ _ => True
  | args _ => True
  | _ => False

/-- Nothing in the value is without a JSON form. -/
def Value.Writable (v : Value) : Prop :=
  ∀ part : Value, part.Inside v → ¬ part.Formless

/-- The JSON value `part` is in a JSON value, at any depth of arrays. -/
inductive Json.Inside (part : Json) : Json → Prop
  | self : Inside part part
  | element {json : Json} {items : List Json} : json ∈ items → Inside part json →
      Inside part (.array items)

/-- No value is written like this. -/
def Json.Foreign : Json → Prop
  | null => True
  | number _ _ => True
  | object _ => True
  | _ => False

/-- Nothing in the JSON value is foreign. -/
def Json.Readable (json : Json) : Prop :=
  ∀ part : Json, part.Inside json → ¬ part.Foreign

/-! ### Values and their forms -/

namespace Value

/-- The JSON form of a value. -/
inductive Written : Value → Json → Prop
  | bool (truth : Bool) : Written (.bool truth) (.bool truth)
  | str (text : String) : Written (.str text) (.string text)
  | list {items : List Value} {forms : List Json} : List.Forall₂ Written items forms →
      Written (.list items) (.array forms)

end Value

/-! ### Lists, element by element -/

section Lists

variable {α β : Type*} {xs : List α} {ys : List β}

/-- An attempt on all elements succeeds if it does on each of them. -/
theorem mapM_eq_some_iff {f : α → Option β} :
    xs.mapM f = some ys ↔ List.Forall₂ (fun x y => f x = some y) xs ys := by
  induction xs generalizing ys with
  | nil => simp [eq_comm]
  | cons x rest ih =>
      simp only [List.mapM_cons, Option.bind_eq_bind, Option.bind_eq_some_iff, Option.pure_def,
        Option.some.injEq, ih]
      constructor
      · rintro ⟨y, first, others, later, rfl⟩
        exact .cons first later
      · rintro ⟨⟩
        rename_i y others first later
        exact ⟨y, first, others, later, rfl⟩

/-- Relations that agree on the elements of a list relate it to the same lists. -/
theorem forall₂_congr_of_mem {R S : α → β → Prop} (same : ∀ x ∈ xs, ∀ y, R x y ↔ S x y) :
    List.Forall₂ R xs ys ↔ List.Forall₂ S xs ys := by
  induction xs generalizing ys with
  | nil => simp
  | cons x rest ih =>
      cases ys with
      | nil => simp
      | cons y others =>
          rw [List.forall₂_cons, List.forall₂_cons, same x List.mem_cons_self,
            ih fun x' mem => same x' (List.mem_cons_of_mem x mem)]

/-- A relation leads from a list to some list if it leads from each element to something. -/
theorem exists_forall₂_iff {R : α → β → Prop} :
    (∃ ys, List.Forall₂ R xs ys) ↔ ∀ x ∈ xs, ∃ y, R x y := by
  induction xs with
  | nil => exact ⟨fun _ => nofun, fun _ => ⟨[], .nil⟩⟩
  | cons x rest ih =>
      rw [List.forall_mem_cons, ← ih]
      constructor
      · rintro ⟨_, ⟨⟩⟩
        rename_i y others first later
        exact ⟨⟨y, first⟩, others, later⟩
      · rintro ⟨⟨y, first⟩, others, later⟩
        exact ⟨y :: others, .cons first later⟩

/-- What is found first is found in front, or else behind. -/
theorem findSome?_cons_eq_or {f : α → Option β} {x : α} :
    (x :: xs).findSome? f = (f x).or (xs.findSome? f) := by
  rw [List.findSome?_cons]
  cases f x <;> rfl

end Lists

/-! ### What is documented, for values at any depth -/

namespace Serialization

variable {s : Serialization}

namespace Documented

variable (documented : s.Documented)

include documented

/-- A truth value has its variant, and so it is written as one. -/
theorem write?_bool (truth : Bool) : s.value.write? (.bool truth) = some (.bool truth) :=
  (documented.value.write _ (.head _) truth).trans (documented.truth.write truth)

theorem write?_str (text : String) : s.value.write? (.str text) = some (.string text) :=
  (documented.value.write _ (.tail _ (.head _)) text).trans (documented.text.write text)

/-- A list is written as an array, if all its elements are written. -/
theorem write?_list (items : List Value) :
    s.value.write? (.list items) = (items.mapM s.value.write?).map .array :=
  (documented.value.write _ (.tail _ (.tail _ (.head _))) items).trans
    (documented.items.write items)

theorem write?_function (signature : Signature) (bound : List Value) :
    s.value.write? (.function signature bound) = none :=
  documented.value.write _ (.tail _ (.tail _ (.tail _ (.head _)))) ⟨signature, bound⟩

theorem write?_subExpr (parameter : String) (body : Operand) :
    s.value.write? (.subExpr parameter body) = none :=
  documented.value.write _ (.tail _ (.tail _ (.tail _ (.tail _ (.head _))))) ⟨parameter, body⟩

/-- Joined arguments are a sequence like a list, but their variant is skipped, so it makes a
difference which of the two a value is. -/
theorem write?_args (items : List Value) : s.value.write? (.args items) = none :=
  documented.value.write _ (.tail _ (.tail _ (.tail _ (.tail _ (.tail _ (.head _)))))) items

/-- The variants that are not skipped are tried in their order: an array is read as a list since
neither a truth value nor a text can be read from it. -/
theorem read?_eq (json : Json) : s.value.read? json =
    (json.truth?.map Value.bool).or ((json.text?.map Value.str).or
      ((json.items?.bind fun forms => forms.mapM s.value.read?).map Value.list)) := by
  simp only [documented.value.read, Value.variants, findSome?_cons_eq_or, List.findSome?_nil,
    Variant.read?, documented.truth.read, documented.text.read, documented.items.read,
    Option.or_none]

/-- **Values are written by the relation.** -/
theorem write?_eq_some_iff (v : Value) (json : Json) :
    s.value.write? v = some json ↔ v.Written json := by
  match v with
  | .bool truth =>
      rw [documented.write?_bool]
      exact ⟨fun h => by cases h; exact .bool truth, fun h => by cases h; rfl⟩
  | .str text =>
      rw [documented.write?_str]
      exact ⟨fun h => by cases h; exact .str text, fun h => by cases h; rfl⟩
  | .list items =>
      have each : ∀ item ∈ items, ∀ form, s.value.write? item = some form ↔ item.Written form :=
        fun item _ => write?_eq_some_iff item
      simp only [documented.write?_list, Option.map_eq_some_iff, mapM_eq_some_iff,
        forall₂_congr_of_mem each]
      constructor
      · rintro ⟨forms, written, rfl⟩
        exact .list written
      · rintro ⟨⟩
        exact ⟨_, ‹_›, rfl⟩
  | .function signature bound =>
      rw [documented.write?_function]
      exact ⟨nofun, nofun⟩
  | .subExpr parameter body =>
      rw [documented.write?_subExpr]
      exact ⟨nofun, nofun⟩
  | .args items =>
      rw [documented.write?_args]
      exact ⟨nofun, nofun⟩

/-- **Values are read by the relation**, in the other direction. -/
theorem read?_eq_some_iff (json : Json) (v : Value) :
    s.value.read? json = some v ↔ v.Written json := by
  rw [documented.read?_eq]
  match json with
  | .bool truth => exact ⟨fun h => by cases h; exact .bool truth, fun h => by cases h; rfl⟩
  | .string text => exact ⟨fun h => by cases h; exact .str text, fun h => by cases h; rfl⟩
  | .array forms =>
      have each : ∀ form ∈ forms, ∀ item,
          s.value.read? form = some item ↔ flip Value.Written form item :=
        fun form _ => read?_eq_some_iff form
      simp only [Json.truth?, Json.text?, Json.items?, Option.map_none, Option.none_or,
        Option.bind_some, Option.map_eq_some_iff, mapM_eq_some_iff, forall₂_congr_of_mem each]
      constructor
      · rintro ⟨items, read, rfl⟩
        exact .list read.flip
      · rintro ⟨⟩
        exact ⟨_, .flip ‹_›, rfl⟩
  | .null | .number _ _ | .object _ => exact ⟨nofun, nofun⟩

/-- **What is documented leaves no choice**: any two documented serializations write and read
values alike. -/
theorem value_eq {t : Serialization} (documented' : t.Documented) : s.value = t.value := by
  have write : s.value.write? = t.value.write? := by
    funext v
    exact Option.ext fun json =>
      (documented.write?_eq_some_iff v json).trans (documented'.write?_eq_some_iff v json).symm
  have read : s.value.read? = t.value.read? := by
    funext json
    exact Option.ext fun v =>
      (documented.read?_eq_some_iff json v).trans (documented'.read?_eq_some_iff json v).symm
  exact Codec.ext write read

end Documented

end Serialization

/-! ### A serialization that can be run -/

namespace Value

/-- The elements of an array are read one by one.  The codec has its own recursion for them, since
it is nested. -/
theorem ofJsonAll?_eq_mapM (forms : List Json) : ofJsonAll? forms = forms.mapM ofJson? := by
  induction forms with
  | nil => rfl
  | cons first rest ih =>
      rw [ofJsonAll?, List.mapM_cons, ih]
      cases ofJson? first <;> cases rest.mapM ofJson? <;> rfl

theorem toJsonAll?_eq_mapM (values : List Value) : toJsonAll? values = values.mapM toJson? := by
  induction values with
  | nil => rfl
  | cons first rest ih =>
      rw [toJsonAll?, List.mapM_cons, ih]
      cases toJson? first <;> cases rest.mapM toJson? <;> rfl

/-- **The variants are tried in their order**, and each is written as it is declared.  The codec
that can be run matches on the kind of a value, which comes to the same. -/
theorem codec_isUntagged : codec.IsUntagged (variants .boolean .text (.sequence codec)) where
  write := by
    simp only [variants, List.forall_mem_cons]
    refine ⟨fun truth => rfl, fun text => rfl, fun items => ?_, fun f => rfl, fun s => rfl,
      fun items => rfl, nofun⟩
    show toJson? (.list items) = (items.mapM toJson?).map .array
    rw [toJson?, toJsonAll?_eq_mapM]
  read json := by
    simp only [variants, findSome?_cons_eq_or, List.findSome?_nil, Variant.read?, Option.or_none]
    show ofJson? json = _
    cases json with
    | array forms =>
        rw [ofJson?, ofJsonAll?_eq_mapM]
        rfl
    | _ => rfl

end Value

/-- **There is a documented serialization**, so what is said of all of them is not said of none. -/
theorem Serialization.documented_reference : reference.Documented where
  truth := ⟨fun _ => rfl, fun _ => rfl⟩
  text := ⟨fun _ => rfl, fun _ => rfl⟩
  items := ⟨fun _ => rfl, fun _ => rfl⟩
  value := Value.codec_isUntagged
  entries := ⟨fun _ => rfl, fun _ => rfl⟩
  record := ⟨fun _ => rfl, fun _ => (congrFun Option.map_id _).symm⟩

/-! ### What has a form -/

namespace Value

/-- What is in a value that is written is written as well, as a part of what the value is written
as. -/
theorem Written.inside {v part : Value} {json : Json} (inside : part.Inside v)
    (h : v.Written json) : ∃ form, part.Written form := by
  induction inside generalizing json with
  | self => exact ⟨json, h⟩
  | element mem _ ih =>
      cases h with
      | list each =>
          obtain ⟨i, bound, rfl⟩ := List.mem_iff_getElem.mp mem
          exact ih (each.get bound (each.length_eq ▸ bound))

/-- A value has one form at most. -/
theorem Written.unique {v : Value} {json json' : Json} (h : v.Written json)
    (h' : v.Written json') : json = json' :=
  Option.some.inj (((Serialization.documented_reference.write?_eq_some_iff v json).mpr h).symm.trans
    ((Serialization.documented_reference.write?_eq_some_iff v json').mpr h'))

theorem Written.option_unique {v? : Option Value} {json? json?' : Option Json}
    (h : Option.Rel Written v? json?) (h' : Option.Rel Written v? json?') : json? = json?' := by
  cases h with
  | none =>
      cases h'
      rfl
  | some written =>
      cases h' with
      | some written' => rw [written.unique written']

theorem not_written_of_formless {v : Value} {json : Json} (h : v.Formless) :
    ¬ v.Written json := by
  rintro ⟨⟩ <;> exact h

/-- A value is written if nothing in it is without a form.  The induction is on the value. -/
theorem exists_written (v : Value) (h : v.Writable) : ∃ json, v.Written json := by
  match v with
  | .bool truth => exact ⟨_, .bool truth⟩
  | .str text => exact ⟨_, .str text⟩
  | .list items =>
      have each : ∀ item ∈ items, ∃ form, item.Written form := fun item mem =>
        exists_written item fun part inside => h part (.element mem inside)
      obtain ⟨forms, written⟩ := exists_forall₂_iff.mpr each
      exact ⟨.array forms, .list written⟩
  | .function _ _ => exact absurd trivial (h _ .self)
  | .subExpr _ _ => exact absurd trivial (h _ .self)
  | .args _ => exact absurd trivial (h _ .self)

/-- **A value is written if nothing in it is without a form**, at any depth of lists, and not
otherwise. -/
theorem exists_written_iff (v : Value) : (∃ json, v.Written json) ↔ v.Writable := by
  refine ⟨?_, exists_written v⟩
  rintro ⟨json, h⟩ part inside formless
  obtain ⟨form, written⟩ := h.inside inside
  exact not_written_of_formless formless written

end Value

namespace Json

/-- What is in a JSON value that is read is read as well. -/
theorem inside_of_written {json part : Json} {v : Value} (inside : part.Inside json)
    (h : v.Written json) : ∃ w : Value, w.Written part := by
  induction inside generalizing v with
  | self => exact ⟨v, h⟩
  | element mem _ ih =>
      cases h with
      | list each =>
          obtain ⟨i, bound, rfl⟩ := List.mem_iff_getElem.mp mem
          exact ih (each.get (each.length_eq ▸ bound) bound)

/-- What is foreign is read as no value: neither `null` nor numbers nor objects are. -/
theorem not_written_of_foreign {json : Json} {v : Value} (h : json.Foreign) :
    ¬ v.Written json := by
  rintro ⟨⟩ <;> exact h

/-- A JSON value is read if nothing in it is foreign. -/
theorem exists_written (json : Json) (h : json.Readable) : ∃ v : Value, v.Written json := by
  match json with
  | .bool truth => exact ⟨_, .bool truth⟩
  | .string text => exact ⟨_, .str text⟩
  | .array forms =>
      have each : ∀ form ∈ forms, ∃ v : Value, v.Written form := fun form mem =>
        exists_written form fun part inside => h part (.element mem inside)
      obtain ⟨items, read⟩ := exists_forall₂_iff.mpr each
      exact ⟨.list items, .list read.flip⟩
  | .null => exact absurd trivial (h _ .self)
  | .number _ _ => exact absurd trivial (h _ .self)
  | .object _ => exact absurd trivial (h _ .self)

/-- **A JSON value is read if nothing in it is foreign**, at any depth of arrays, and not
otherwise. -/
theorem exists_written_iff (json : Json) : (∃ v : Value, v.Written json) ↔ json.Readable := by
  refine ⟨?_, exists_written json⟩
  rintro ⟨v, h⟩ part inside foreign
  obtain ⟨w, written⟩ := inside_of_written inside h
  exact not_written_of_foreign foreign written

end Json

/-! ### Host data -/

namespace Record

open Dictionary (ofList ofList_entries get?_ofList mem_of_mem_ofList)

/-- The member of an object as which an entry is written. -/
def Writes (entry : String × Value) (member : String × Json) : Prop :=
  entry.1 = member.1 ∧ entry.2.Written member.2

variable {record : Record} {entries : List (String × Value)} {members : List (String × Json)}
variable {json : Json}

/-- The entries of host data are written if all their values are. -/
theorem exists_writes_iff :
    (∃ members, List.Forall₂ Writes entries members) ↔ ∀ entry ∈ entries, entry.2.Writable := by
  rw [exists_forall₂_iff]
  refine forall₂_congr fun entry _ => ?_
  rw [← entry.2.exists_written_iff]
  exact ⟨fun ⟨member, _, written⟩ => ⟨member.2, written⟩,
    fun ⟨form, written⟩ => ⟨(entry.1, form), rfl, written⟩⟩

/-- The members of an object are read if all their values are. -/
theorem exists_read_iff :
    (∃ entries, List.Forall₂ Writes entries members) ↔ ∀ member ∈ members, member.2.Readable := by
  have flipped : (∃ entries, List.Forall₂ Writes entries members) ↔
      ∃ entries, List.Forall₂ (flip Writes) members entries :=
    exists_congr fun _ => ⟨.flip, .flip⟩
  rw [flipped, exists_forall₂_iff]
  refine forall₂_congr fun member _ => ?_
  rw [← member.2.exists_written_iff]
  exact ⟨fun ⟨entry, _, written⟩ => ⟨entry.2, written⟩,
    fun ⟨v, written⟩ => ⟨(member.1, v), rfl, written⟩⟩

/-- What has a name on both sides stands at the same place. -/
theorem find?_of_writes (each : List.Forall₂ Writes entries members) (name : String) :
    Option.Rel Value.Written ((entries.find? (·.1 = name)).map (·.2))
      ((members.find? (·.1 = name)).map (·.2)) := by
  induction each with
  | nil => exact .none
  | @cons entry member others others' first later ih =>
      have same : entry.1 = member.1 := first.1
      by_cases named : member.1 = name
      · rw [List.find?_cons_of_pos (by simpa [same] using named),
          List.find?_cons_of_pos (by simpa using named)]
        exact .some first.2
      · rw [List.find?_cons_of_neg (by simpa [same] using named),
          List.find?_cons_of_neg (by simpa using named)]
        exact ih

/-- **The member that counts** is the form of the value to which its name is set in the end. -/
theorem member?_of_writes (each : List.Forall₂ Writes entries members) (name : String) :
    Option.Rel Value.Written ((ofList entries).get? name) (Json.member? name members) := by
  rw [get?_ofList, Json.member?]
  exact find?_of_writes (List.forall₂_reverse_iff.mpr each) name

/-- The names of members are those of the entries. -/
theorem names_of_writes (each : List.Forall₂ Writes entries members) :
    members.map (·.1) = entries.map (·.1) := by
  induction each with
  | nil => rfl
  | cons first _ ih => rw [List.map_cons, List.map_cons, first.1, ih]

end Record

namespace Serialization.Documented

open Dictionary (ofList)
open Record (Writes)

variable {s : Serialization} {record : Record} {json : Json}
variable {members : List (String × Json)}

section

variable (documented : s.Documented)

include documented

/-- Host data is written as an object of its entries. -/
theorem record_write?_eq_some_iff : s.record.write? record = some json ↔
    ∃ members, List.Forall₂ Writes record.entries members ∧ json = .object members := by
  have each : ∀ entry ∈ record.entries, ∀ member : String × Json,
      (s.value.write? entry.2).map (Prod.mk entry.1) = some member ↔ Writes entry member := by
    rintro entry - ⟨name, form⟩
    simp only [Option.map_eq_some_iff, documented.write?_eq_some_iff, Prod.mk.injEq]
    exact ⟨fun ⟨_, written, same, h⟩ => ⟨same, h ▸ written⟩,
      fun ⟨same, written⟩ => ⟨form, written, same, rfl⟩⟩
  have all (members : List (String × Json)) :=
    (@mapM_eq_some_iff _ _ record.entries members _).trans (forall₂_congr_of_mem each)
  have transparent : s.record.write? record = s.entries.write? record :=
    documented.record.write record
  simp only [transparent, documented.entries.write, Option.map_eq_some_iff, all, @eq_comm _ json]

/-- Members that are read one after another are set one after another. -/
theorem foldlM_eq_some_iff {d d' : Dictionary Value} :
    members.foldlM (fun d member => (s.value.read? member.2).map (d.insert member.1)) d = some d' ↔
      ∃ entries, List.Forall₂ Writes entries members ∧
        d' = entries.foldl (fun d entry => d.insert entry.1 entry.2) d := by
  induction members generalizing d with
  | nil => simp [eq_comm]
  | cons member rest ih =>
      simp only [List.foldlM_cons, Option.bind_eq_bind, Option.bind_eq_some_iff,
        Option.map_eq_some_iff, documented.read?_eq_some_iff, ih]
      constructor
      · rintro ⟨_, ⟨v, read, rfl⟩, entries, later, rfl⟩
        exact ⟨(member.1, v) :: entries, .cons ⟨rfl, read⟩ later, rfl⟩
      · rintro ⟨_, ⟨⟩, rfl⟩
        rename_i entry entries first later
        exact ⟨_, ⟨entry.2, first.2, rfl⟩, entries, later, by rw [List.foldl_cons, first.1]⟩

/-- An object is read by setting its members one after another, and nothing else is read. -/
theorem record_read?_eq_some_iff : s.record.read? json = some record ↔
    ∃ members entries, json = .object members ∧ List.Forall₂ Writes entries members ∧
      record = ofList entries := by
  have transparent : s.record.read? json = s.entries.read? json := by
    rw [documented.record.read]
    exact congrFun Option.map_id _
  rw [transparent, documented.entries.read]
  cases json with
  | object members =>
      simp only [Json.members?, Option.bind_some, documented.foldlM_eq_some_iff, Json.object.injEq,
        exists_and_left, exists_eq_left', ofList]
  | _ => simp [Json.members?]

end

end Serialization.Documented

/-! ### There and back -/

namespace Record

open Dictionary (ofList ofList_entries mem_of_mem_ofList)

/-- **Host data as JSON.**  By any documented serialization, host data is written if no
function, no sub-expression and no joined arguments are in any of its values, at any depth of
lists, and what was written is read as the same host data.  An object is read if neither
`null` nor a number nor an object is in any of its members, at any depth of arrays; other JSON
values are not read.  What was read is written as an object in which each name occurs once, in
the order of names, and the member of each name is the last one of that name that was read. -/
theorem json_round_trip (s : Serialization) (documented : s.Documented) :
    (∀ record : Record, (s.record.write? record).isSome ↔
      ∀ entry ∈ record.entries, entry.2.Writable) ∧
    (∀ record json, s.record.write? record = some json → s.record.read? json = some record) ∧
    (∀ members, (s.record.read? (.object members)).isSome ↔
      ∀ member ∈ members, member.2.Readable) ∧
    (∀ json, (s.record.read? json).isSome → ∃ members, json = .object members) ∧
    ∀ members record, s.record.read? (.object members) = some record →
      ∃ members', s.record.write? record = some (.object members') ∧
        (members'.map (·.1)).Pairwise (· < ·) ∧
        ∀ name, Json.member? name members' = Json.member? name members := by
  refine ⟨fun record => ?_, fun record json written => ?_, fun members => ?_, fun json read => ?_,
    fun members record read => ?_⟩
  · rw [← exists_writes_iff, Option.isSome_iff_exists]
    simp only [documented.record_write?_eq_some_iff]
    exact ⟨fun ⟨_, members, each, _⟩ => ⟨members, each⟩,
      fun ⟨members, each⟩ => ⟨_, members, each, rfl⟩⟩
  · obtain ⟨members, each, rfl⟩ := documented.record_write?_eq_some_iff.mp written
    exact documented.record_read?_eq_some_iff.mpr
      ⟨members, record.entries, rfl, each, (ofList_entries record).symm⟩
  · rw [← exists_read_iff, Option.isSome_iff_exists]
    simp only [documented.record_read?_eq_some_iff]
    constructor
    · rintro ⟨_, _, entries, ⟨⟩, each, _⟩
      exact ⟨entries, each⟩
    · rintro ⟨entries, each⟩
      exact ⟨_, members, entries, rfl, each, rfl⟩
  · obtain ⟨record, read⟩ := Option.isSome_iff_exists.mp read
    obtain ⟨members, _, same, _⟩ := documented.record_read?_eq_some_iff.mp read
    exact ⟨members, same⟩
  · obtain ⟨_, entries, ⟨⟩, each, rfl⟩ := documented.record_read?_eq_some_iff.mp read
    -- The entries that were set are some of those that were read, so they have forms.
    have writable : ∀ entry ∈ (ofList entries).entries, entry.2.Writable := fun entry mem =>
      exists_writes_iff.mp ⟨members, each⟩ entry (mem_of_mem_ofList mem)
    obtain ⟨members', each'⟩ := exists_writes_iff.mpr writable
    refine ⟨members', documented.record_write?_eq_some_iff.mpr ⟨members', each', rfl⟩, ?_,
      fun name => ?_⟩
    · rw [names_of_writes each', List.pairwise_map]
      exact (ofList entries).sorted
    · have counts' := member?_of_writes each' name
      rw [ofList_entries] at counts'
      exact Value.Written.option_unique counts' (member?_of_writes each name)

/-- Nested arrays, and two members with one name. -/
theorem json_round_trip_nested :
    let members : List (String × Json) := [("b", .array [.array [], .string "x"]),
      ("a", .array [.bool true, .array [.string "y"]]), ("b", .bool false)]
    let record : Record := ofList [("a", .list [.bool true, .list [.str "y"]]), ("b", .bool false)]
    let written : Json := .object [("a", .array [.bool true, .array [.string "y"]]),
      ("b", .bool false)]
    Serialization.reference.Documented ∧ ofJson? (.object members) = some record ∧
      record.toJson? = some written ∧ ofJson? written = some record := by
  intro members record written
  have documented := Serialization.documented_reference
  have read : ofJson? (.object members) = some record := rfl
  have back : record.toJson? = some written := rfl
  exact ⟨documented, read, back, (json_round_trip _ documented).2.1 record written back⟩

end Record

end RuleEngine
