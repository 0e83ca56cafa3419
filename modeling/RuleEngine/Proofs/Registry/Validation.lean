import RuleEngine.Proofs.Registry.Extension
import Mathlib.Data.List.Sort

/-!
# Which registrations make a registry

The rules of registration are stated here as properties of the whole list, with
no check, no order of visits and no early exit in them.  `Registry.build` is then
characterized: it succeeds exactly when all rules are kept, it reports the first
rule that is broken, and what it makes depends on what is registered but not on
the order.

The tables of a registry overwrite, so it is not by their making that they list
everything: `Registry.Lists` follows from the rules.  Two registrations with the same
signature would leave one definition, and a name with two arities would leave one.

Two facts carry the result.  The name of an operator determines its fixity, so
distinct signatures give operators distinct names, and the order in which
operators are tried is strict.  And a strictly ordered list is determined by what
is in it.

## Main definitions

* `Registration.Rule` - the rules, and `Rule.Kept` - what each of them says.
* `Rule.FirstBroken` - a rule is broken, and none before it is.
* `Registry.Lists` - the registry has what is registered, and nothing else.
* `Registry.SameContents`, `Registry.BuiltAlike` - the results that registrations
  in another order may have.

## Main statements

* `Registration.firstFault?_eq_none_iff_kept` - no fault is found exactly when the
  rules are kept.
* `Registry.lists_of_build` - what is built lists what is registered.
* `Registry.build_characterization` - all of it for `Registry.build`.
-/

namespace RuleEngine

/-! ### The rules -/

namespace Registration

/-- The name and the arity of a registration are allowed in themselves. -/
structure Allowed (r : Registration) : Prop where
  /-- There is a name. -/
  name_ne : r.name ≠ ""
  /-- It has no quote, no bracket and no white space. -/
  plain : ∀ c ∈ r.name.toList, c ∉ ['\'', '(', ')', '\x7b', '\x7d'] ∧ Text.isBlank c = false
  /-- That of a function does not look like one with a stated arity. -/
  unmarked : r.role = .function → '#' ∉ r.name.toList
  /-- There are at most five operands or arguments. -/
  arity_le : r.arity ≤ 5

/-- The rules of registration. -/
inductive Rule
  /-- Every name and arity is allowed in itself. -/
  | allowed
  /-- No signature is registered twice. -/
  | unique
  /-- No function name has two arities. -/
  | oneArity
  /-- No operator name has two fixities. -/
  | oneFixity
  /-- Every operator has a body. -/
  | complete

namespace Rule

/-- The place of a rule in the order in which rules are reported. -/
def position : Rule → Nat
  | allowed => 0
  | unique => 1
  | oneArity => 2
  | oneFixity => 3
  | complete => 4

/-- The registrations keep the rule. -/
def Kept (all : List Registration) : Rule → Prop
  | allowed => ∀ r ∈ all, r.Allowed
  | unique => (all.map signature).Nodup
  | oneArity => ∀ name arity arity', (name, arity) ∈ all.filterMap function? →
      (name, arity') ∈ all.filterMap function? → arity = arity'
  | oneFixity => FixitiesAgree (all.filterMap fixity?)
  | complete => ∀ r ∈ all, r.definition?.isSome

/-- The rule is broken, and no rule that is reported before it. -/
def FirstBroken (all : List Registration) (rule : Rule) : Prop :=
  ¬ rule.Kept all ∧ ∀ earlier : Rule, earlier.position < rule.position → earlier.Kept all

/-- The check of a rule in `firstFault?`. -/
def check? (all : List Registration) : Rule → Option RegistryError
  | allowed => all.findSome? fault?
  | unique => duplicate? [] all
  | oneArity => ambiguous? all
  | oneFixity => conflict? [] (all.filterMap fixity?)
  | complete => missingBody? all

/-- The rules are checked one after the other, no two of them at once. -/
theorem position_injective {rule rule' : Rule} (h : rule.position = rule'.position) :
    rule = rule' := by
  cases rule <;> cases rule' <;> first | rfl | cases h

/-- The order of the registrations does not matter to any rule.  The checks go through them in
order, but what they look for is there or is not. -/
theorem kept_of_perm {all all' : List Registration} (perm : all.Perm all') {rule : Rule}
    (kept : rule.Kept all) : rule.Kept all' := by
  match rule with
  | allowed => exact fun r mem => kept r (perm.mem_iff.mpr mem)
  | unique => exact (perm.map signature).nodup_iff.mp kept
  | oneArity =>
      have entries := perm.filterMap function?
      intro name arity arity' mem mem'
      exact kept name arity arity' (entries.mem_iff.mpr mem) (entries.mem_iff.mpr mem')
  | oneFixity =>
      have entries := perm.filterMap fixity?
      intro name fixity fixity' mem mem'
      exact kept name fixity fixity' (entries.mem_iff.mpr mem) (entries.mem_iff.mpr mem')
  | complete => exact fun r mem => kept r (perm.mem_iff.mpr mem)

/-- Nor does it matter to which rule is broken first, in the order of the rules. -/
theorem FirstBroken.of_perm {all all' : List Registration} (perm : all.Perm all') {rule : Rule}
    (broken : rule.FirstBroken all) : rule.FirstBroken all' :=
  ⟨fun kept => broken.1 (kept_of_perm perm.symm kept),
    fun earlier before => kept_of_perm perm (broken.2 earlier before)⟩

/-- Only one rule is the first broken one. -/
theorem FirstBroken.eq {all : List Registration} {rule rule' : Rule}
    (broken : rule.FirstBroken all) (broken' : rule'.FirstBroken all) : rule = rule' := by
  refine position_injective (Nat.le_antisymm ?_ ?_)
  · by_contra later
    exact broken'.1 (broken.2 rule' (Nat.lt_of_not_le later))
  · by_contra later
    exact broken.1 (broken'.2 rule (Nat.lt_of_not_le later))

end Rule

end Registration

/-- The rule that an error reports as broken. -/
def RegistryError.rule : RegistryError → Registration.Rule
  | emptyName => .allowed
  | reservedCharacter _ => .allowed
  | arityTooLarge _ _ => .allowed
  | duplicate _ _ => .unique
  | ambiguousName _ _ => .oneArity
  | conflictingFixity _ _ _ => .oneFixity
  | missingBody _ => .complete

/-! ### The checks -/

namespace Registration

variable {all : List Registration} {r : Registration} {e : RegistryError}

/-- A character is free for names if it is no quote, no bracket and no blank. -/
theorem isReserved_eq_false_iff {c : Char} : isReserved c = false ↔
    c ∉ ['\'', '(', ')', '\x7b', '\x7d'] ∧ Text.isBlank c = false := by
  simp [isReserved, and_assoc]

/-- The name of a function has to do without the mark for arities as well. -/
theorem hasReserved_eq_false_iff : r.hasReserved = false ↔
    (∀ c ∈ r.name.toList, c ∉ ['\'', '(', ')', '\x7b', '\x7d'] ∧ Text.isBlank c = false) ∧
      (r.role = .function → '#' ∉ r.name.toList) := by
  simp only [hasReserved, List.any_eq_false, Bool.or_eq_true, not_or, Bool.not_eq_true,
    isReserved_eq_false_iff, Bool.and_eq_false_imp, beq_iff_eq, beq_eq_false_iff_ne]
  constructor
  · intro plain
    exact ⟨fun c mem => (plain c mem).1, fun isFunction mem => (plain _ mem).2 isFunction rfl⟩
  · rintro ⟨plain, unmarked⟩ c mem
    refine ⟨plain c mem, ?_⟩
    rintro isFunction rfl
    exact unmarked isFunction mem

/-- A registration passes the first check exactly if its name is allowed. -/
theorem fault?_eq_none_iff : r.fault? = none ↔ r.Allowed := by
  unfold fault?
  by_cases nameless : r.name = ""
  · simp only [nameless, if_true, reduceCtorEq, false_iff]
    exact fun allowed => allowed.name_ne nameless
  by_cases reserved : r.hasReserved = true
  · simp only [nameless, reserved, if_false, if_true, reduceCtorEq, false_iff]
    intro allowed
    have plain := hasReserved_eq_false_iff.mpr ⟨allowed.plain, allowed.unmarked⟩
    rw [plain] at reserved
    cases reserved
  by_cases large : maxArity < r.arity
  · simp only [nameless, reserved, large, if_false, if_true, reduceCtorEq, false_iff]
    exact fun allowed => absurd allowed.arity_le (Nat.not_le_of_lt large)
  · obtain ⟨plain, unmarked⟩ := hasReserved_eq_false_iff.mp (Bool.eq_false_of_not_eq_true reserved)
    rw [if_neg nameless, if_neg reserved, if_neg large]
    exact ⟨fun _ => ⟨nameless, plain, unmarked, Nat.le_of_not_lt large⟩, fun _ => rfl⟩

/-- The second check finds nothing exactly if all signatures are distinct, and none of them has
been seen before. -/
theorem duplicate?_eq_none_iff {seen : List Signature} : duplicate? seen all = none ↔
    (all.map signature).Nodup ∧ ∀ r ∈ all, r.signature ∉ seen := by
  refine ⟨nodup_of_duplicate?_eq_none, ?_⟩
  induction all generalizing seen with
  | nil => exact fun _ => rfl
  | cons first rest ih =>
      rintro ⟨nodup, unseen⟩
      rw [List.map_cons, List.nodup_cons] at nodup
      rw [duplicate?, if_neg (unseen first List.mem_cons_self)]
      refine ih ⟨nodup.2, fun r mem => ?_⟩
      rw [List.mem_cons, not_or]
      exact ⟨fun same => nodup.1 (same ▸ List.mem_map_of_mem mem),
        unseen r (List.mem_cons_of_mem _ mem)⟩

/-- An operator has its name, and as many operands as its fixity takes. -/
theorem signature_of_fixity? {operator : String × Fixity} (h : r.fixity? = some operator) :
    r.signature = ⟨operator.1, operator.2.arity⟩ := by
  cases r with
  | operator name fixity body? desugar? =>
      cases h
      rfl
  | function name arity body => cases h

/-- The third check finds nothing if each name of a function has one arity.  It counts arities,
with repetitions; under distinct signatures there are none. -/
theorem ambiguous?_eq_none (unique : (all.map signature).Nodup) (single : Rule.oneArity.Kept all) :
    ambiguous? all = none := by
  refine List.findSome?_eq_none_iff.mpr fun r _ => ?_
  have few : (aritiesOf r.name all).length ≤ 1 := by
    by_contra many
    have nodup : (aritiesOf r.name all).Nodup := by
      rw [aritiesOf, List.Nodup, List.pairwise_map]
      refine ((nodup_functions unique).filter _).imp_of_mem ?_
      rintro ⟨name, arity⟩ ⟨name', arity'⟩ mem mem' distinct rfl
      have named := (List.mem_filter.mp mem).2
      have named' := (List.mem_filter.mp mem').2
      simp only [decide_eq_true_eq] at named named'
      exact distinct (by rw [named, named'])
    have registered : ∀ arity ∈ aritiesOf r.name all,
        (r.name, arity) ∈ all.filterMap function? := by
      intro arity mem
      obtain ⟨⟨name, _⟩, kept, rfl⟩ := List.mem_map.mp mem
      obtain ⟨mem, named⟩ := List.mem_filter.mp kept
      rwa [← of_decide_eq_true named]
    match arities : aritiesOf r.name all with
    | [] => simp [arities] at many
    | [_] => simp [arities] at many
    | first :: second :: rest =>
        rw [arities] at nodup registered
        have same : first = second := single r.name first second
          (registered first (by simp)) (registered second (by simp))
        simp [same] at nodup
  exact if_neg (Nat.not_lt.mpr few)

/-- The fourth check finds nothing if each name of an operator has one fixity. -/
theorem conflict?_eq_none {seen entries : List (String × Fixity)}
    (agree : FixitiesAgree (entries ++ seen)) : conflict? seen entries = none := by
  induction entries generalizing seen with
  | nil => rfl
  | cons entry rest ih =>
      obtain ⟨name, fixity⟩ := entry
      have later : FixitiesAgree (rest ++ (name, fixity) :: seen) := by
        intro name' f f' hf hf'
        refine agree name' f f' ?_ ?_
        · simpa [or_left_comm] using hf
        · simpa [or_left_comm] using hf'
      rw [conflict?]
      split
      · exact ih later
      · rename_i name' first found
        obtain rfl : name' = name := by simpa using List.find?_some found
        have same : first = fixity := agree name' first fixity
          (List.mem_append_right _ (List.mem_of_find?_eq_some found)) List.mem_cons_self
        rw [if_pos same]
        exact ih later

/-- The last check finds nothing exactly if each operator has a body.  Functions always have one. -/
theorem missingBody?_eq_none_iff : missingBody? all = none ↔ Rule.complete.Kept all := by
  simp [missingBody?, Rule.Kept, Option.isSome_iff_ne_none]

namespace Rule

/-- A check finds nothing exactly when its rule is kept, if the rules before it are.  Some checks
make use of the earlier ones, which is why the order is part of the statement. -/
theorem check?_eq_none_iff {rule : Rule}
    (before : ∀ earlier : Rule, earlier.position < rule.position → earlier.Kept all) :
    rule.check? all = none ↔ rule.Kept all := by
  match rule with
  | allowed => exact List.findSome?_eq_none_iff.trans (by simp only [fault?_eq_none_iff, Kept])
  | unique => exact duplicate?_eq_none_iff.trans (and_iff_left (fun _ _ => List.not_mem_nil))
  | oneArity =>
      refine ⟨fun silent _ _ _ => arity_unique silent, ?_⟩
      exact ambiguous?_eq_none (before unique (by decide))
  | oneFixity =>
      refine ⟨fun silent => ?_, fun kept => conflict?_eq_none (by rwa [List.append_nil])⟩
      have none_seen : FixitiesAgree [] := nofun
      have agree := fixitiesAgree_of_conflict?_eq_none none_seen silent
      rwa [List.append_nil] at agree
  | complete => exact missingBody?_eq_none_iff

/-- If no check up to that of a rule finds anything, the rule is kept. -/
theorem kept_of_checks {rule : Rule}
    (silent : ∀ earlier : Rule, earlier.position ≤ rule.position → earlier.check? all = none) :
    rule.Kept all :=
  (check?_eq_none_iff fun earlier _before =>
    kept_of_checks fun first le => silent first (by omega)).mp (silent rule (Nat.le_refl _))
termination_by rule.position

end Rule

theorem rule_of_fault? (h : r.fault? = some e) : e.rule = .allowed := by
  unfold fault? at h
  grind [RegistryError.rule]

theorem rule_of_duplicate? {seen : List Signature} (h : duplicate? seen all = some e) :
    e.rule = .unique := by
  induction all generalizing seen with
  | nil => cases h
  | cons first rest ih =>
      rw [duplicate?] at h
      grind [RegistryError.rule]

theorem rule_of_conflict? {seen entries : List (String × Fixity)}
    (h : conflict? seen entries = some e) : e.rule = .oneFixity := by
  induction entries generalizing seen with
  | nil => cases h
  | cons first rest ih =>
      rw [conflict?] at h
      grind [RegistryError.rule]

/-- What a check finds is a breach of its rule.  So the rule can be told from the error. -/
theorem Rule.rule_of_check? {rule : Rule} (h : rule.check? all = some e) : e.rule = rule := by
  match rule with
  | allowed =>
      obtain ⟨r, -, found⟩ := List.exists_of_findSome?_eq_some h
      exact rule_of_fault? found
  | unique => exact rule_of_duplicate? h
  | oneArity =>
      obtain ⟨r, -, found⟩ := List.exists_of_findSome?_eq_some h
      grind [RegistryError.rule]
  | oneFixity => exact rule_of_conflict? h
  | complete =>
      obtain ⟨r, -, found⟩ := List.exists_of_findSome?_eq_some h
      grind [RegistryError.rule]

/-- The first fault is that of a check with no fault before it. -/
theorem exists_check?_of_firstFault? (h : firstFault? all = some e) :
    ∃ rule : Rule, rule.check? all = some e ∧
      ∀ earlier : Rule, earlier.position < rule.position → earlier.check? all = none := by
  simp only [firstFault?, Option.or_eq_some_iff] at h
  rcases h with h | ⟨allowed, h | ⟨unique, h | ⟨oneArity, h | ⟨oneFixity, h⟩⟩⟩⟩
  · exact ⟨.allowed, h, fun earlier before => absurd before (Nat.not_lt_zero _)⟩
  · refine ⟨.unique, h, ?_⟩
    rintro (_ | _) before <;> first | assumption | simp [Rule.position] at before
  · refine ⟨.oneArity, h, ?_⟩
    rintro (_ | _) before <;> first | assumption | simp [Rule.position] at before
  · refine ⟨.oneFixity, h, ?_⟩
    rintro (_ | _) before <;> first | assumption | simp [Rule.position] at before
  · refine ⟨.complete, h, ?_⟩
    rintro (_ | _) before <;> first | assumption | simp [Rule.position] at before

/-- **The error reports the first rule that is broken.**  The checks before have found nothing, so
their rules are kept, and the one that complains has found its own rule broken. -/
theorem firstBroken_of_firstFault? (h : firstFault? all = some e) : e.rule.FirstBroken all := by
  obtain ⟨rule, found, silent⟩ := exists_check?_of_firstFault? h
  rw [Rule.rule_of_check? found]
  have before : ∀ earlier : Rule, earlier.position < rule.position → earlier.Kept all :=
    fun earlier lt => Rule.kept_of_checks fun first le => silent first (by omega)
  refine ⟨fun kept => ?_, before⟩
  rw [(Rule.check?_eq_none_iff before).mpr kept] at found
  cases found

/-- **No fault is found exactly when all rules are kept.** -/
theorem firstFault?_eq_none_iff_kept : firstFault? all = none ↔ ∀ rule : Rule, rule.Kept all := by
  constructor
  · intro h rule
    obtain ⟨allowed, unique, oneArity, oneFixity, complete⟩ := firstFault?_eq_none_iff.mp h
    exact Rule.kept_of_checks fun earlier _ => by cases earlier <;> assumption
  · intro kept
    cases found : firstFault? all with
    | none => rfl
    | some e => exact absurd (kept _) (firstBroken_of_firstFault? found).1

end Registration

/-! ### The order of operators -/

namespace Registry

variable {all all' : List Registration} {registry : Registry}

/-- Longer names are tried first, and among those of the same length the smaller ones.  Length is
that of the encoding. -/
theorem triedBefore_iff {a b : String × Fixity} : triedBefore a b ↔
    b.1.utf8ByteSize < a.1.utf8ByteSize ∨ a.1.utf8ByteSize = b.1.utf8ByteSize ∧ a.1 < b.1 := by
  simp [triedBefore]

theorem triedBefore_trans {a b c : String × Fixity} (h : triedBefore a b) (h' : triedBefore b c) :
    triedBefore a c := by
  rw [triedBefore_iff] at h h' ⊢
  rcases h with longer | ⟨same, less⟩
  · rcases h' with longer' | ⟨same', -⟩
    · exact .inl (by omega)
    · exact .inl (by omega)
  · rcases h' with longer' | ⟨same', less'⟩
    · exact .inl (by omega)
    · exact .inr ⟨same.trans same', String.lt_trans less less'⟩

/-- Of two operators with different names, one is tried before the other. -/
theorem triedBefore_of_not {a b : String × Fixity} (distinct : a.1 ≠ b.1)
    (h : ¬ triedBefore a b) : triedBefore b a := by
  rw [triedBefore_iff, not_or, not_and] at h
  rw [triedBefore_iff]
  by_cases same : a.1.utf8ByteSize = b.1.utf8ByteSize
  · have le : b.1 ≤ a.1 := String.not_lt.mp (h.2 same)
    refine .inr ⟨same.symm, ?_⟩
    by_contra notLess
    exact distinct (String.le_antisymm (String.not_lt.mp notLess) le)
  · exact .inl (by omega)

theorem not_triedBefore_self (a : String × Fixity) : ¬ triedBefore a a := by
  rw [triedBefore_iff]
  rintro (longer | ⟨-, less⟩)
  · exact Nat.lt_irrefl _ longer
  · exact String.lt_irrefl _ less

/-- To place an operator among others leaves none of them out, and adds no other. -/
theorem place_perm (operator : String × Fixity) (operators : List (String × Fixity)) :
    (place operator operators).Perm (operator :: operators) := by
  induction operators with
  | nil => exact .refl _
  | cons first rest ih =>
      rw [place]
      split
      · exact .refl _
      · exact (ih.cons first).trans (.swap _ _ _)

/-- Placed among sorted operators with other names, an operator leaves them sorted. -/
theorem pairwise_place {operator : String × Fixity} {operators : List (String × Fixity)}
    (fresh : ∀ other ∈ operators, operator.1 ≠ other.1)
    (sorted : operators.Pairwise (triedBefore · ·)) :
    (place operator operators).Pairwise (triedBefore · ·) := by
  induction operators with
  | nil => exact List.pairwise_singleton _ _
  | cons first rest ih =>
      have ⟨before, sortedRest⟩ := List.pairwise_cons.mp sorted
      rw [place]
      split
      · rename_i first_after
        refine List.pairwise_cons.mpr ⟨fun other mem => ?_, sorted⟩
        rcases List.mem_cons.mp mem with rfl | mem
        · exact first_after
        · exact triedBefore_trans first_after (before other mem)
      · rename_i not_after
        have first_before := triedBefore_of_not (fresh first List.mem_cons_self) not_after
        refine List.pairwise_cons.mpr ⟨fun other mem => ?_, ?_⟩
        · rcases mem_place.mp mem with rfl | mem
          · exact first_before
          · exact before other mem
        · exact ih (fun other mem => fresh other (List.mem_cons_of_mem _ mem)) sortedRest

/-- The order in which operators are tried only arranges them. -/
theorem foldr_place_perm (operators : List (String × Fixity)) :
    (operators.foldr place []).Perm operators := by
  induction operators with
  | nil => exact .refl _
  | cons first rest ih => exact (place_perm _ _).trans (ih.cons first)

/-- Operators with distinct names end up sorted.  So the list of them is determined by what is in
it. -/
theorem pairwise_foldr_place {operators : List (String × Fixity)}
    (distinct : (operators.map (·.1)).Nodup) :
    (operators.foldr place []).Pairwise (triedBefore · ·) := by
  induction operators with
  | nil => exact .nil
  | cons first rest ih =>
      rw [List.map_cons, List.nodup_cons] at distinct
      refine pairwise_place (fun other mem named => distinct.1 ?_) (ih distinct.2)
      rw [named]
      exact List.mem_map_of_mem ((foldr_place_perm rest).mem_iff.mp mem)

/-- Distinct operators have distinct names, as a name comes with one fixity and hence with one
number of operands. -/
theorem nodup_names (unique : Registration.Rule.unique.Kept all)
    (agree : Registration.Rule.oneFixity.Kept all) :
    ((all.filterMap Registration.fixity?).map (·.1)).Nodup := by
  rw [List.Nodup, List.pairwise_map, List.pairwise_filterMap]
  refine (List.pairwise_map.mp unique).imp_of_mem ?_
  intro r r' mem mem' distinct operator h operator' h' named
  have same : operator.2 = operator'.2 := by
    refine agree operator.1 _ _ (List.mem_filterMap.mpr ⟨r, mem, h⟩) ?_
    rw [named]
    exact List.mem_filterMap.mpr ⟨r', mem', h'⟩
  refine distinct ?_
  rw [Registration.signature_of_fixity? h, Registration.signature_of_fixity? h', named, same]

/-! ### What is built -/

/-- Building fails with the fault that is found, and with no other error. -/
theorem build_eq_error_iff {e : RegistryError} :
    build all = .error e ↔ Registration.firstFault? all = some e := by
  unfold build
  split
  · rename_i fault found
    rw [found, Except.error.injEq, Option.some.injEq]
  · rename_i sound
    simp [sound]

/-- The registry has what is registered, and nothing else. -/
structure Lists (registry : Registry) (all : List Registration) : Prop where
  /-- Registrations and definitions are equally many. -/
  size_eq : registry.size = all.length
  /-- What is found under a signature is what is registered under it. -/
  find?_iff : ∀ signature d, registry.find? signature = some d ↔
    ∃ r ∈ all, r.signature = signature ∧ r.definition? = some d
  /-- A name resolves to the arity of the function that is registered under it. -/
  arity?_iff : ∀ name arity, registry.directory.arity? name = some arity ↔
    ∃ body, .function name arity body ∈ all
  /-- The operators are those that are registered. -/
  mem_operators_iff : ∀ name fixity, (name, fixity) ∈ registry.operators ↔
    ∃ body? desugar?, .operator name fixity body? desugar? ∈ all
  /-- No name is listed twice. -/
  nodup_operators : (registry.operators.map (·.1)).Nodup
  /-- Longer names come first, and of equally long ones the smaller one. -/
  pairwise_operators : registry.operators.Pairwise fun a b =>
    b.1.utf8ByteSize < a.1.utf8ByteSize ∨ a.1.utf8ByteSize = b.1.utf8ByteSize ∧ a.1 < b.1
  /-- There are no more operators than definitions. -/
  operators_le : registry.operators.length ≤ registry.size
  /-- The other definitions are the functions. -/
  functions_eq : registry.size - registry.operators.length =
    (all.filterMap Registration.function?).length

/-- Each registration is that of a function or that of an operator. -/
theorem length_functions_add_length_operators (all : List Registration) :
    (all.filterMap Registration.function?).length + (all.filterMap Registration.fixity?).length =
      all.length := by
  induction all with
  | nil => rfl
  | cons first rest ih =>
      match first with
      | .operator _ _ _ _ => exact congrArg (· + 1) ih
      | .function _ _ _ =>
          simp only [List.filterMap_cons, Registration.function?, Registration.fixity?,
            List.length_cons]
          omega

/-- **What is built lists what is registered.**  The sizes rest on the rules: each registration
has a definition, signatures are unique, and so no definition has taken the place of another in
the table. -/
theorem lists_of_build (built : build all = .ok registry) : registry.Lists all := by
  obtain ⟨sound, rfl⟩ := exists_assemble_of_build built
  have kept := Registration.firstFault?_eq_none_iff_kept.mp sound
  -- No definition has taken the place of another, and none is missing.
  have size : (assemble all sound).size = all.length := by
    rw [size, Table.size, definitions_assemble sound]
    exact List.filterMap_length_eq_length.mpr (kept .complete)
  have operators : (assemble all sound).operators.Perm (all.filterMap Registration.fixity?) :=
    foldr_place_perm _
  have distinct := nodup_names (kept .unique) (kept .oneFixity)
  have counted := length_functions_add_length_operators all
  rw [← operators.length_eq] at counted
  refine ⟨size, fun signature d => ⟨fun found => ?_, ?_⟩, fun name arity => ⟨fun found => ?_, ?_⟩,
    fun name fixity => ?_, ?_, ?_, by omega, by omega⟩
  · obtain ⟨r, mem, hd⟩ := exists_registration built (Table.mem_of_find? found)
    refine ⟨r, mem, ?_, hd⟩
    rw [← Registration.signature_of_definition? hd, signature_of_find? found]
  · rintro ⟨r, mem, rfl, hd⟩
    exact find?_of_build built mem hd
  · obtain ⟨r, mem, named⟩ := List.mem_filterMap.mp
      ((mem_arities_assemble sound).mp (mem_of_arity? found))
    match r with
    | .function _ _ body =>
        cases named
        exact ⟨body, mem⟩
  · rintro ⟨body, mem⟩
    exact arity?_of_build built (List.mem_filterMap.mpr ⟨_, mem, rfl⟩)
  · rw [mem_operators_assemble, List.mem_filterMap]
    constructor
    · rintro ⟨r, mem, h⟩
      match r with
      | .operator _ _ body? desugar? =>
          cases h
          exact ⟨body?, desugar?, mem⟩
    · rintro ⟨body?, desugar?, mem⟩
      exact ⟨_, mem, rfl⟩
  · exact (operators.map _).nodup_iff.mpr distinct
  · exact (pairwise_foldr_place distinct).imp triedBefore_iff.mp

/-! ### The order of registrations -/

/-- The registries find and list the same. -/
structure SameContents (registry registry' : Registry) : Prop where
  /-- Operators are tried in the same order. -/
  operators : registry.operators = registry'.operators
  /-- The same is found. -/
  find? : ∀ signature, registry.find? signature = registry'.find? signature
  /-- Names of functions have the same arity. -/
  arity? : ∀ name, registry.directory.arity? name = registry'.directory.arity? name
  /-- They are equally large. -/
  size : registry.size = registry'.size

/-- Registries with the same contents resolve names alike. -/
theorem SameContents.resolve {registry' : Registry} (same : registry.SameContents registry')
    (name : String) : registry.directory.resolve name = registry'.directory.resolve name := by
  simp only [Directory.resolve, same.arity?]

/-- They are shown alike, too, since only numbers of operators and functions are shown. -/
theorem SameContents.render {registry' : Registry} (same : registry.SameContents registry') :
    registry.render = registry'.render := by
  rw [Registry.render, Registry.render, same.operators, same.size]

/-- Both results are registries with the same contents, or errors that report the
same rule as broken. -/
def BuiltAlike : Except RegistryError Registry → Except RegistryError Registry → Prop
  | .ok registry, .ok registry' => registry.SameContents registry'
  | .error e, .error e' => e.rule = e'.rule
  | _, _ => False

/-- **A registry is determined by what is registered.**  Tables are compared by what is found in
them, and the operators as lists. -/
theorem Lists.sameContents {registry' : Registry} (lists : registry.Lists all)
    (lists' : registry'.Lists all') (perm : all.Perm all') : registry.SameContents registry' where
  operators := by
    have sorted := lists.pairwise_operators.imp triedBefore_iff.mpr
    have sorted' := lists'.pairwise_operators.imp triedBefore_iff.mpr
    have nodup := List.Nodup.of_map _ lists.nodup_operators
    have nodup' := List.Nodup.of_map _ lists'.nodup_operators
    have members : ∀ operator, operator ∈ registry.operators ↔ operator ∈ registry'.operators := by
      rintro ⟨name, fixity⟩
      simp only [lists.mem_operators_iff, lists'.mem_operators_iff, perm.mem_iff]
    have arranged := (List.perm_ext_iff_of_nodup nodup nodup').mpr members
    refine arranged.eq_of_pairwise (fun a b _ _ h h' => ?_) sorted sorted'
    exact absurd (triedBefore_trans h h') (not_triedBefore_self a)
  find? signature := by
    ext d
    simp only [lists.find?_iff, lists'.find?_iff, perm.mem_iff]
  arity? name := by
    ext arity
    simp only [lists.arity?_iff, lists'.arity?_iff, perm.mem_iff]
  size := by rw [lists.size_eq, lists'.size_eq, perm.length_eq]

/-- **Building fails exactly for broken rules and forgets the order.**  The
registrations make a registry exactly when all rules are kept; the error reports
the first rule that is broken; the registry lists what is registered; and
registrations in another order have the same result. -/
theorem build_characterization (all : List Registration) :
    ((∃ registry, build all = .ok registry) ↔ ∀ rule : Registration.Rule, rule.Kept all) ∧
    (∀ e, build all = .error e → e.rule.FirstBroken all) ∧
    (∀ registry, build all = .ok registry → registry.Lists all) ∧
    (∀ all', all.Perm all' → BuiltAlike (build all) (build all')) := by
  have kept_iff : Registration.firstFault? all = none ↔ ∀ rule : Registration.Rule, rule.Kept all :=
    Registration.firstFault?_eq_none_iff_kept
  have broken : ∀ all e, build all = .error e → e.rule.FirstBroken all :=
    fun all e failed => Registration.firstBroken_of_firstFault? (build_eq_error_iff.mp failed)
  refine ⟨⟨?_, fun kept => ?_⟩, broken all, fun registry => lists_of_build, fun all' perm => ?_⟩
  · rintro ⟨registry, built⟩
    obtain ⟨sound, -⟩ := exists_assemble_of_build built
    exact kept_iff.mp sound
  · exact ⟨_, build_of_firstFault? (kept_iff.mpr kept)⟩
  · cases built : build all with
    | ok registry =>
        obtain ⟨sound, -⟩ := exists_assemble_of_build built
        have kept' : ∀ rule : Registration.Rule, rule.Kept all' := fun rule =>
          Registration.Rule.kept_of_perm perm (kept_iff.mp sound rule)
        have built' := build_of_firstFault? (Registration.firstFault?_eq_none_iff_kept.mpr kept')
        rw [built']
        exact (lists_of_build built).sameContents (lists_of_build built') perm
    | error e =>
        have first := (broken all e built).of_perm perm
        cases built' : build all' with
        | ok registry =>
            obtain ⟨sound', -⟩ := exists_assemble_of_build built'
            exact absurd (Registration.firstFault?_eq_none_iff_kept.mp sound' e.rule) first.1
        | error e' => exact first.eq (broken all' e' built')

/-- The standard library in both directions; and a signature that is registered
twice, which is reported before the missing body. -/
theorem build_characterization_library :
    Registry.standard.Lists Standard.library ∧
      BuiltAlike (build Standard.library) (build Standard.library.reverse) ∧
      Registration.Rule.unique.FirstBroken
        [.operator "not" .prefix1 none none, .function "not" 1 Standard.negation] := by
  refine ⟨(build_characterization _).2.2.1 _ Standard.build_library,
    (build_characterization _).2.2.2 _ (List.reverse_perm _).symm,
    (build_characterization _).2.1 (.duplicate "not" 1) ?_⟩
  exact build_eq_error_iff.mpr (by decide +kernel)

end Registry

end RuleEngine
