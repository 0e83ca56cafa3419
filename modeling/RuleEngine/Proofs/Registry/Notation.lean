import RuleEngine.Proofs.Registry.Validation
import Mathlib.Data.Nat.Digits.Defs

/-!
# The notation for functions

A text stands for a function if it is the name of the function, or the name with `#` and
a numeral for the arity behind it.  The notation is stated here as such, with no search
for the last `#` and nothing to fall back on: what a numeral is, which number it is for,
and which texts state an arity.  To resolve a text is then to invert the notation.

There is no `#` in a numeral, and by a rule of registration none in the name of a function.
So there is one place at most where a text can be split; and a text that is looked up as a
whole although there is a `#` in it is the name of no function.

## Main definitions

* `Text.Numeral` - the text is a numeral for the number.
* `States` - the text is a name with a stated arity.
* `Registry.Resolution` - what a text resolves to, told from what is registered.

## Main statements

* `Text.numeral_of_count?`, `Text.count?_of_numeral` - a count is a numeral for a number
  of at most 64 bits.
* `splitAtLast?_eq_some_iff` - where a text is split.
* `Registry.resolve_name`, `Registry.resolve_stated`, `Registry.resolve_missing` - the
  three sorts of texts.
* `Registry.resolution_of_build` - to resolve a text is to invert the notation.
-/

namespace RuleEngine

/-! ### Numerals -/

namespace Text

variable {text : List Char} {n : Nat}

/-- The text is a numeral for the number: at least one decimal digit, perhaps behind a plus
sign.  The first digits may be zero. -/
def Numeral (text : List Char) (number : Nat) : Prop :=
  ∃ digits : List Nat, digits ≠ [] ∧ (∀ d ∈ digits, d < 10) ∧
    (text = digits.map Nat.digitChar ∨ text = '+' :: digits.map Nat.digitChar) ∧
    number = Nat.ofDigits 10 digits.reverse

/-- The digits are the ten characters of that name, and each stands for its number. -/
theorem digit?_eq_some_iff {c : Char} {d : Nat} :
    digit? c = some d ↔ d < 10 ∧ c = Nat.digitChar d := by
  constructor
  · intro h
    unfold digit? at h
    split at h
    · rename_i within
      cases h
      change 48 ≤ c.toNat ∧ c.toNat ≤ 57 at within
      have small : c.toNat - '0'.toNat < 10 := by
        change c.toNat - 48 < 10
        omega
      refine ⟨small, Char.toNat_inj.mp ?_⟩
      rw [Nat.toNat_digitChar_of_lt_ten small]
      change c.toNat = 48 + (c.toNat - 48)
      omega
    · cases h
  · rintro ⟨small, rfl⟩
    have all : ∀ d < 10, digit? (Nat.digitChar d) = some d := by decide
    exact all d small

/-- The first digit counts as often as there are numbers with the other ones.  This is the step
from reading digits one by one to the number of the whole numeral. -/
theorem ofDigits_reverse_cons (d : Nat) (digits : List Nat) (n : Nat) :
    n * 10 ^ (d :: digits).length + Nat.ofDigits 10 (d :: digits).reverse =
      (10 * n + d) * 10 ^ digits.length + Nat.ofDigits 10 digits.reverse := by
  rw [List.reverse_cons, Nat.ofDigits_append, Nat.ofDigits_singleton, List.length_reverse,
    List.length_cons, pow_succ]
  ring

/-- What is read are digits, behind those that have been read already, and nothing else is
accepted. -/
theorem digits?_eq_some_iff {m : Nat} : digits? n text = some m ↔
    ∃ digits : List Nat, (∀ d ∈ digits, d < 10) ∧ text = digits.map Nat.digitChar ∧
      m = n * 10 ^ digits.length + Nat.ofDigits 10 digits.reverse := by
  induction text generalizing n with
  | nil =>
      constructor
      · intro h
        cases h
        exact ⟨[], by simp, rfl, by simp⟩
      · rintro ⟨digits, -, spelled, rfl⟩
        obtain rfl := List.map_eq_nil_iff.mp spelled.symm
        simp [digits?]
  | cons c rest ih =>
      constructor
      · intro h
        rw [digits?] at h
        cases read : digit? c with
        | none =>
            rw [read] at h
            cases h
        | some d =>
            rw [read] at h
            obtain ⟨small, rfl⟩ := digit?_eq_some_iff.mp read
            obtain ⟨digits, small', rfl, rfl⟩ := ih.mp h
            exact ⟨d :: digits, List.forall_mem_cons.mpr ⟨small, small'⟩, rfl,
              (ofDigits_reverse_cons d digits n).symm⟩
      · rintro ⟨digits, small, spelled, rfl⟩
        cases digits with
        | nil => cases spelled
        | cons d digits =>
            obtain ⟨rfl, rfl⟩ := List.cons.inj spelled
            obtain ⟨small, small'⟩ := List.forall_mem_cons.mp small
            rw [digits?, digit?_eq_some_iff.mpr ⟨small, rfl⟩]
            exact ih.mpr ⟨digits, small', rfl, ofDigits_reverse_cons d digits n⟩

/-- A number without a sign is a row of digits that is not empty. -/
theorem unsigned?_eq_some_iff : unsigned? text = some n ↔
    ∃ digits : List Nat, digits ≠ [] ∧ (∀ d ∈ digits, d < 10) ∧
      text = digits.map Nat.digitChar ∧ n = Nat.ofDigits 10 digits.reverse := by
  cases text with
  | nil =>
      simp only [unsigned?, reduceCtorEq, false_iff]
      rintro ⟨digits, some_digit, -, spelled, -⟩
      exact some_digit (List.map_eq_nil_iff.mp spelled.symm)
  | cons c rest =>
      rw [unsigned?, digits?_eq_some_iff]
      · constructor
        · rintro ⟨digits, small, spelled, rfl⟩
          refine ⟨digits, ?_, small, spelled, by simp⟩
          rintro rfl
          cases spelled
        · rintro ⟨digits, -, small, spelled, rfl⟩
          exact ⟨digits, small, spelled, by simp⟩
      · exact List.cons_ne_nil c rest

/-- A digit is neither a sign nor a mark, so the sign can be told from the digits, and a numeral
from the mark in front of it. -/
theorem digitChar_ne {d : Nat} (small : d < 10) :
    Nat.digitChar d ≠ '+' ∧ Nat.digitChar d ≠ '#' := by
  have all : ∀ d < 10, Nat.digitChar d ≠ '+' ∧ Nat.digitChar d ≠ '#' := by decide
  exact all d small

theorem Numeral.unmarked (h : Numeral text n) : '#' ∉ text := by
  obtain ⟨digits, -, small, spelled, -⟩ := h
  have plain : '#' ∉ digits.map Nat.digitChar := by
    intro inside
    obtain ⟨d, mem, same⟩ := List.mem_map.mp inside
    exact (digitChar_ne (small d mem)).2 same
  rcases spelled with rfl | rfl
  · exact plain
  · exact mt (List.mem_of_ne_of_mem (by decide)) plain

/-- A numeral is a count unless the number is too large.  Signs and leading zeros make no
difference to that. -/
theorem count?_of_numeral (h : Numeral text n) :
    count? text = (some n).filter (· < UInt64.size) := by
  obtain ⟨digits, some_digit, small, spelled, value⟩ := h
  have read : unsigned? (digits.map Nat.digitChar) = some n :=
    unsigned?_eq_some_iff.mpr ⟨digits, some_digit, small, rfl, value⟩
  rcases spelled with rfl | rfl
  · unfold count?
    split
    · rename_i rest signed
      cases digits with
      | nil => cases signed
      | cons d digits =>
          exact absurd (List.cons.inj signed).1 (digitChar_ne (small d List.mem_cons_self)).1
    · rw [read]
  · simp only [count?, read]

/-- What is counted is a numeral, and its number is not too large. -/
theorem numeral_of_count? (h : count? text = some n) : Numeral text n ∧ n < UInt64.size := by
  unfold count? at h
  obtain ⟨read, small⟩ := Option.filter_eq_some_iff.mp h
  refine ⟨?_, of_decide_eq_true small⟩
  split at read
  · obtain ⟨digits, some_digit, small, rfl, value⟩ := unsigned?_eq_some_iff.mp read
    exact ⟨digits, some_digit, small, .inr rfl, value⟩
  · obtain ⟨digits, some_digit, small, rfl, value⟩ := unsigned?_eq_some_iff.mp read
    exact ⟨digits, some_digit, small, .inl rfl, value⟩

end Text

/-! ### Stated arities -/

section Splitting

variable {mark : Char} {text front back : List Char}

theorem splitAtLast?_eq_none_iff : splitAtLast? mark text = none ↔ mark ∉ text := by
  induction text with
  | nil => simp [splitAtLast?]
  | cons c rest ih =>
      cases later : splitAtLast? mark rest with
      | some parts =>
          have inside : mark ∈ rest := by
            by_contra without
            rw [ih.mpr without] at later
            cases later
          simp [splitAtLast?, later, inside]
      | none => simp [splitAtLast?, later, ih.mp later, eq_comm]

/-- A text is split where no mark is left behind.  There is one such place at most, so the front
and the back are determined. -/
theorem splitAtLast?_eq_some_iff : splitAtLast? mark text = some (front, back) ↔
    text = front ++ mark :: back ∧ mark ∉ back := by
  constructor
  · intro h
    induction text generalizing front with
    | nil => cases h
    | cons c rest ih =>
        rw [splitAtLast?] at h
        split at h
        · rename_i later
          cases h
          obtain ⟨rfl, last⟩ := ih later
          exact ⟨rfl, last⟩
        · rename_i later
          split at h
          · rename_i here
            cases h
            exact ⟨by rw [here, List.nil_append], splitAtLast?_eq_none_iff.mp later⟩
          · cases h
  · rintro ⟨rfl, last⟩
    induction front with
    | nil =>
        simp only [List.nil_append, splitAtLast?, splitAtLast?_eq_none_iff.mpr last, if_true]
    | cons c front ih => simp only [List.cons_append, splitAtLast?, ih]

end Splitting

/-- The text is the name with `#` and a numeral behind it, for an arity of at most
64 bits. -/
def States (text name : String) (arity : Nat) : Prop :=
  ∃ numeral : String, Text.Numeral numeral.toList arity ∧ arity < UInt64.size ∧
    text = name ++ "#" ++ numeral

section Stated

variable {text name : String} {arity : Nat}

/-- A name with a mark and a numeral behind it, character by character. -/
theorem toList_marked (front back : String) :
    (front ++ "#" ++ back).toList = front.toList ++ '#' :: back.toList := by
  rw [String.toList_append, String.toList_append, List.append_assoc]
  rfl

/-- A text that states an arity is split into the name and that arity. -/
theorem statedArity_of_states (h : States text name arity) :
    statedArity text = (name, some arity) := by
  obtain ⟨numeral, denotes, small, rfl⟩ := h
  have split := splitAtLast?_eq_some_iff.mpr ⟨toList_marked name numeral, denotes.unmarked⟩
  have counted : Text.count? numeral.toList = some arity := by
    rw [Text.count?_of_numeral denotes]
    exact Option.filter_eq_some_iff.mpr ⟨rfl, decide_eq_true small⟩
  simp only [statedArity, split, counted, String.ofList_toList]

/-- Conversely, what is split into a name and an arity states that arity. -/
theorem states_of_statedArity (h : statedArity text = (name, some arity)) :
    States text name arity := by
  unfold statedArity at h
  split at h
  · cases h
  · rename_i front back split
    split at h
    · cases h
    · rename_i counted
      cases h
      obtain ⟨denotes, small⟩ := Text.numeral_of_count? counted
      obtain ⟨whole, -⟩ := splitAtLast?_eq_some_iff.mp split
      refine ⟨String.ofList back, by rwa [String.toList_ofList], small, ?_⟩
      refine String.toList_inj.mp ?_
      rw [toList_marked, String.toList_ofList, String.toList_ofList, whole]

/-- A text that states no arity is taken as a whole, marks included. -/
theorem eq_of_statedArity (h : statedArity text = (name, none)) : name = text := by
  unfold statedArity at h
  split at h
  · cases h
    rfl
  · split at h
    · cases h
      rfl
    · cases h

/-- There is one mark in a text that states the arity of a name without any. -/
theorem States.count_eq (h : States text name arity) (unmarked : '#' ∉ name.toList) :
    text.toList.count '#' = 1 := by
  obtain ⟨numeral, denotes, -, rfl⟩ := h
  rw [toList_marked, List.count_append, List.count_cons_self,
    List.count_eq_zero_of_not_mem unmarked, List.count_eq_zero_of_not_mem denotes.unmarked]

end Stated

/-! ### Texts for registered functions -/

namespace Registry

variable {all : List Registration} {registry : Registry} {text name : String} {arity k : Nat}
variable {body : Body}

/-- There is no mark in the name of a registered function, by a rule of registration.  So a
function cannot be hidden by the notation for another one. -/
theorem unmarked_of_build (built : build all = .ok registry)
    (mem : .function name arity body ∈ all) : '#' ∉ name.toList := by
  obtain ⟨sound, -⟩ := exists_assemble_of_build built
  have kept := Registration.firstFault?_eq_none_iff_kept.mp sound
  exact (kept .allowed _ mem).unmarked rfl

/-- The name of a registered function stands for it, with nothing bound yet. -/
theorem resolve_name (built : build all = .ok registry)
    (mem : .function name arity body ∈ all) :
    registry.directory.resolve name = .ok (.new ⟨name, arity⟩) := by
  have stated : statedArity name = (name, none) := by
    simp only [statedArity, splitAtLast?_eq_none_iff.mpr (unmarked_of_build built mem)]
  have listed := ((lists_of_build built).arity?_iff name arity).mpr ⟨body, mem⟩
  simp only [Directory.resolve, stated, listed]

/-- With a stated arity it stands for the function if this is its arity, and for nothing if it is
not; the error shows what was stated. -/
theorem resolve_stated (built : build all = .ok registry)
    (mem : .function name arity body ∈ all) (states : States text name k) :
    registry.directory.resolve text =
      if k = arity then .ok (.new ⟨name, arity⟩) else .error (.otherArity name k) := by
  have listed := ((lists_of_build built).arity?_iff name arity).mpr ⟨body, mem⟩
  simp only [Directory.resolve, statedArity_of_states states, listed]

/-- The text is no notation for a registered function, with its own arity or with
another one. -/
def Missing (all : List Registration) (text : String) : Prop :=
  ∀ name arity body, .function name arity body ∈ all →
    text ≠ name ∧ ∀ k, ¬ States text name k

/-- Any other text is unknown, and the error shows it as it was given. -/
theorem resolve_missing (built : build all = .ok registry) (missing : Missing all text) :
    registry.directory.resolve text = .error (.unknownFunction text) := by
  have unlisted {name : String} (none_registered : ∀ arity body, .function name arity body ∉ all) :
      registry.directory.arity? name = none := by
    cases listed : registry.directory.arity? name with
    | none => rfl
    | some arity =>
        obtain ⟨body, mem⟩ := ((lists_of_build built).arity?_iff name arity).mp listed
        exact absurd mem (none_registered arity body)
  cases stated : statedArity text with
  | mk base stated? =>
      cases stated? with
      | none =>
          obtain rfl := eq_of_statedArity stated
          have absent := unlisted fun arity body mem => (missing _ arity body mem).1 rfl
          simp only [Directory.resolve, stated, absent]
      | some k =>
          have states := states_of_statedArity stated
          have absent := unlisted fun arity body mem => (missing base arity body mem).2 k states
          simp only [Directory.resolve, stated, absent]

/-- **What a text may resolve to**: a function, in one of two notations, an error for another
arity, or an error for a text that is in no notation. -/
theorem resolve_cases (built : build all = .ok registry) (text : String) :
    (∃ name arity body, .function name arity body ∈ all ∧ (text = name ∨ States text name arity) ∧
      registry.directory.resolve text = .ok (.new ⟨name, arity⟩)) ∨
    (∃ name arity body k, .function name arity body ∈ all ∧ States text name k ∧ k ≠ arity ∧
      registry.directory.resolve text = .error (.otherArity name k)) ∨
    registry.directory.resolve text = .error (.unknownFunction text) := by
  by_cases named : ∃ arity body, .function text arity body ∈ all
  · obtain ⟨arity, body, mem⟩ := named
    exact .inl ⟨text, arity, body, mem, .inl rfl, resolve_name built mem⟩
  by_cases stated : ∃ name arity body k, .function name arity body ∈ all ∧ States text name k
  · obtain ⟨name, arity, body, k, mem, states⟩ := stated
    have resolved := resolve_stated built mem states
    by_cases same : k = arity
    · subst same
      exact .inl ⟨name, k, body, mem, .inr states, resolved.trans (if_pos rfl)⟩
    · exact .inr (.inl ⟨name, arity, body, k, mem, states, same, resolved.trans (if_neg same)⟩)
  · refine .inr (.inr (resolve_missing built fun name arity body mem => ⟨?_, fun k states => ?_⟩))
    · rintro rfl
      exact named ⟨arity, body, mem⟩
    · exact stated ⟨name, arity, body, k, mem, states⟩

/-- Functions are found in their notation only. -/
theorem resolve_eq_ok_iff (built : build all = .ok registry) {f : FunctionValue} :
    registry.directory.resolve text = .ok f ↔
      ∃ name arity body, .function name arity body ∈ all ∧
        (text = name ∨ States text name arity) ∧ f = ⟨⟨name, arity⟩, []⟩ := by
  constructor
  · intro found
    rcases resolve_cases built text with
      ⟨name, arity, body, mem, noted, resolved⟩ | ⟨_, _, _, _, _, _, _, resolved⟩ | resolved
    · rw [resolved] at found
      exact ⟨name, arity, body, mem, noted, (Except.ok.inj found).symm⟩
    · rw [resolved] at found
      cases found
    · rw [resolved] at found
      cases found
  · rintro ⟨name, arity, body, mem, rfl | states, rfl⟩
    · exact resolve_name built mem
    · exact (resolve_stated built mem states).trans (if_pos rfl)

/-- Other arities are reported where they are stated, of names that are registered. -/
theorem resolve_eq_otherArity_iff (built : build all = .ok registry) :
    registry.directory.resolve text = .error (.otherArity name k) ↔
      ∃ arity body, .function name arity body ∈ all ∧ States text name k ∧ k ≠ arity := by
  constructor
  · intro refused
    rcases resolve_cases built text with
      ⟨_, _, _, _, _, resolved⟩ | ⟨_, arity, body, _, mem, states, other, resolved⟩ | resolved
    · rw [resolved] at refused
      cases refused
    · rw [resolved] at refused
      cases refused
      exact ⟨arity, body, mem, states, other⟩
    · rw [resolved] at refused
      cases refused
  · rintro ⟨arity, body, mem, states, other⟩
    exact (resolve_stated built mem states).trans (if_neg other)

/-! ### Texts that are missing -/

/-- Two marks are too many: neither name nor numeral has any. -/
theorem missing_of_count (built : build all = .ok registry) (several : 2 ≤ text.toList.count '#') :
    Missing all text := by
  intro name arity body mem
  have unmarked := unmarked_of_build built mem
  refine ⟨?_, fun k states => ?_⟩
  · rintro rfl
    rw [List.count_eq_zero_of_not_mem unmarked] at several
    omega
  · rw [states.count_eq unmarked] at several
    omega

/-- What is behind a mark has to be a count.  A number that does not fit into 64 bits is none. -/
theorem missing_of_suffix (built : build all = .ok registry) {suffix : String}
    (malformed : Text.count? suffix.toList = none) : Missing all (name ++ "#" ++ suffix) := by
  intro other arity body mem
  have unmarked := unmarked_of_build built mem
  refine ⟨?_, fun k states => ?_⟩
  · rintro rfl
    exact unmarked (by simp)
  · -- There is no other mark where the text could be split.
    have single := states.count_eq unmarked
    rw [toList_marked, List.count_append, List.count_cons_self] at single
    have last : '#' ∉ suffix.toList := List.count_eq_zero.mp (by omega)
    have split := splitAtLast?_eq_some_iff.mpr ⟨toList_marked name suffix, last⟩
    have stated := statedArity_of_states states
    simp only [statedArity, split, malformed] at stated
    cases stated

/-- What is without a mark has to be a name. -/
theorem missing_of_unregistered (unmarked : '#' ∉ text.toList)
    (unregistered : ∀ arity body, .function text arity body ∉ all) : Missing all text := by
  intro name arity body mem
  refine ⟨?_, fun k states => ?_⟩
  · rintro rfl
    exact unregistered arity body mem
  · obtain ⟨numeral, -, -, rfl⟩ := states
    exact unmarked (by simp)

/-! ### The inverse of the notation -/

/-- What a text resolves to, told from what is registered. -/
structure Resolution (registry : Registry) (all : List Registration) (text : String) : Prop where
  /-- **A function is found exactly in its notation**: its name, or its name with a numeral
  for its arity.  Nothing is bound. -/
  found_iff : ∀ f, registry.directory.resolve text = .ok f ↔
    ∃ name arity body, .function name arity body ∈ all ∧
      (text = name ∨ States text name arity) ∧ f = ⟨⟨name, arity⟩, []⟩
  /-- What is found under its signature is what is registered, and not an operator of the
  same name. -/
  definition : ∀ f, registry.directory.resolve text = .ok f →
    ∃ body, .function f.signature.name f.signature.arity body ∈ all ∧
      registry.find? f.signature = some ⟨f.signature, .function, body, none⟩
  /-- **Another arity is reported exactly where it is stated** for a registered function. -/
  otherArity_iff : ∀ name k, registry.directory.resolve text = .error (.otherArity name k) ↔
    ∃ arity body, .function name arity body ∈ all ∧ States text name k ∧ k ≠ arity
  /-- **Every other text is unknown**, and is reported as a whole. -/
  otherwise : (∀ f, registry.directory.resolve text ≠ .ok f) →
    (∀ name k, registry.directory.resolve text ≠ .error (.otherArity name k)) →
    registry.directory.resolve text = .error (.unknownFunction text)
  /-- Such is a text with several marks. -/
  several : 2 ≤ text.toList.count '#' →
    registry.directory.resolve text = .error (.unknownFunction text)
  /-- Such is a text with nothing behind a mark, or with what is no numeral. -/
  malformed : ∀ name suffix, text = name ++ "#" ++ suffix →
    (∀ n, ¬ Text.Numeral suffix.toList n) →
    registry.directory.resolve text = .error (.unknownFunction text)
  /-- Such is one with a numeral for a number of more than 64 bits. -/
  overflow : ∀ name suffix n, text = name ++ "#" ++ suffix →
    Text.Numeral suffix.toList n → UInt64.size ≤ n →
    registry.directory.resolve text = .error (.unknownFunction text)
  /-- Such is a name that no function has, even if an operator has it. -/
  unregistered : '#' ∉ text.toList → (∀ arity body, .function text arity body ∉ all) →
    registry.directory.resolve text = .error (.unknownFunction text)

/-- **To resolve a text is to invert the notation for functions**, whatever is
registered. -/
theorem resolution_of_build (built : build all = .ok registry) (text : String) :
    registry.Resolution all text where
  found_iff _ := resolve_eq_ok_iff built
  definition f found := by
    obtain ⟨name, arity, body, mem, -, rfl⟩ := (resolve_eq_ok_iff built).mp found
    exact ⟨body, mem, find?_of_build built mem rfl⟩
  otherArity_iff _ _ := resolve_eq_otherArity_iff built
  otherwise unfound allowed := by
    rcases resolve_cases built text with
      ⟨_, _, _, _, _, resolved⟩ | ⟨_, _, _, _, _, _, _, resolved⟩ | resolved
    · exact absurd resolved (unfound _)
    · exact absurd resolved (allowed _ _)
    · exact resolved
  several several := resolve_missing built (missing_of_count built several)
  malformed name suffix marked none_denoted := by
    have uncounted : Text.count? suffix.toList = none := by
      cases counted : Text.count? suffix.toList with
      | none => rfl
      | some n => exact absurd (Text.numeral_of_count? counted).1 (none_denoted n)
    rw [marked]
    exact resolve_missing built (missing_of_suffix built uncounted)
  overflow name suffix n marked denotes large := by
    have uncounted : Text.count? suffix.toList = none := by
      rw [Text.count?_of_numeral denotes]
      exact Option.filter_eq_none_iff.mpr fun _ same => by
        cases same
        simpa using large
    rw [marked]
    exact resolve_missing built (missing_of_suffix built uncounted)
  unregistered unmarked unregistered :=
    resolve_missing built (missing_of_unregistered unmarked unregistered)

/-- In the standard language: a numeral for the arity of `Concat`, one for another arity,
and one for a number that is too large; and `!`, which is the name of an operator only. -/
theorem resolution_concat :
    let resolve := standard.directory.resolve
    resolve "Concat#+02" = .ok ⟨⟨"Concat", 2⟩, []⟩ ∧
      resolve "Concat#3" = .error (.otherArity "Concat" 3) ∧
      resolve "Concat#18446744073709551616" =
        .error (.unknownFunction "Concat#18446744073709551616") ∧
      resolve "Concat#2#2" = .error (.unknownFunction "Concat#2#2") ∧
      resolve "!" = .error (.unknownFunction "!") := by
  have resolution := resolution_of_build Standard.build_library
  have listed : .function "Concat" 2 Standard.concatenation ∈ Standard.sequenceFunctions :=
    .tail _ (.tail _ (.head _))
  have mem : .function "Concat" 2 Standard.concatenation ∈ Standard.library :=
    List.mem_append_left _ (List.mem_append_left _ (List.mem_append_right _ listed))
  have two : Text.Numeral "+02".toList 2 :=
    ⟨[0, 2], by decide, by decide, .inr rfl, by simp [Nat.ofDigits]⟩
  have three : Text.Numeral "3".toList 3 :=
    ⟨[3], by decide, by decide, .inl rfl, by simp⟩
  have large : Text.Numeral "18446744073709551616".toList 18446744073709551616 :=
    ⟨[1, 8, 4, 4, 6, 7, 4, 4, 0, 7, 3, 7, 0, 9, 5, 5, 1, 6, 1, 6], by decide, by decide, .inl rfl,
      by simp [Nat.ofDigits]⟩
  have others : ∀ r ∈ Standard.library, r.role = .function → r.name ≠ "!" := by decide
  refine ⟨?_, ?_, ?_, ?_, ?_⟩
  · exact ((resolution _).found_iff _).mpr
      ⟨"Concat", 2, _, mem, .inr ⟨"+02", two, by decide, rfl⟩, rfl⟩
  · exact ((resolution _).otherArity_iff _ _).mpr
      ⟨2, _, mem, ⟨"3", three, by decide, rfl⟩, by decide⟩
  · exact (resolution _).overflow "Concat" "18446744073709551616" _ rfl large (Nat.le_refl _)
  · exact (resolution _).several (by decide)
  · exact (resolution _).unregistered (by decide) fun _ _ mem => others _ mem rfl rfl

end Registry

end RuleEngine
