import RuleEngine.Standard.Library

/-!
# What the rules of registration give

`Registry.build` looks for broken rules and reports the first one.  Here the
rules are read the other way round: what may be relied on once none is broken.

The tables of a registry take one entry for a key, and a later entry takes the place of
an earlier one with the same key.  That none does is no property of the tables, but of
what is put into them: signatures are unique, and a name of a function has one arity.
Both follow from the rules, and with them a table lists just what is registered, in the
order of registration.

The rules on characters are used where texts are read.  No name is empty, so each
operator that is read takes something off the text; and no name has a quote, a bracket or
a blank in it, so that it cannot run into what stands behind it.

## Main definitions

* `Registry.Regular` - the facts on names and fixities that reading a text
  relies on, and that calling functions by name relies on.

## Main statements

* `Registry.find?_of_build` - everything that is registered is found.
* `Registry.exists_registration` - and nothing else is there.
* `Registry.regular_of_build` - every registry that was built is regular.
* `Registry.regular_standard` - so is the standard one.
-/

namespace RuleEngine

namespace Registration

variable {all : List Registration} {r : Registration} {d : Definition}

/-- No fault is found exactly if none of the five checks finds one.  Which of them would report
first does not matter for that. -/
theorem firstFault?_eq_none_iff : firstFault? all = none ↔
    all.findSome? fault? = none ∧ duplicate? [] all = none ∧ ambiguous? all = none ∧
      conflict? [] (all.filterMap fixity?) = none ∧ missingBody? all = none := by
  simp only [firstFault?, Option.or_eq_none_iff]

/-- A name that passes its check is not empty, and no character in it is reserved. -/
theorem unreserved_of_fault?_eq_none (h : r.fault? = none) :
    r.name ≠ "" ∧ ∀ c ∈ r.name.toList, isReserved c = false := by
  unfold fault? at h
  split at h
  · cases h
  · rename_i nonempty
    refine ⟨nonempty, ?_⟩
    split at h
    · cases h
    · rename_i plain
      simp only [hasReserved, List.any_eq_true, not_exists, not_and, Bool.or_eq_true] at plain
      intro c hc
      have := plain c hc
      simpa using fun reserved => this (.inl reserved)

theorem signature_of_definition? (h : r.definition? = some d) : d.signature = r.signature := by
  cases r with
  | operator name fixity body? desugar? =>
      obtain ⟨body, -, rfl⟩ := Option.map_eq_some_iff.mp h
      rfl
  | function name arity body =>
      obtain rfl := Option.some.inj h
      rfl

/-- No two registrations have the same signature.  The check goes through the list and keeps what
it has seen, and so does the induction. -/
theorem nodup_of_duplicate?_eq_none {seen : List Signature} (h : duplicate? seen all = none) :
    (all.map signature).Nodup ∧ ∀ r ∈ all, r.signature ∉ seen := by
  induction all generalizing seen with
  | nil => exact ⟨List.nodup_nil, nofun⟩
  | cons first rest ih =>
      rw [duplicate?] at h
      split at h
      · cases h
      · rename_i fresh
        obtain ⟨nodup, unseen⟩ := ih h
        refine ⟨?_, ?_⟩
        · rw [List.map_cons, List.nodup_cons]
          refine ⟨?_, nodup⟩
          intro mem
          obtain ⟨other, hother, same⟩ := List.mem_map.mp mem
          exact unseen other hother (same ▸ List.mem_cons_self)
        · intro r hr
          rcases List.mem_cons.mp hr with rfl | hr
          · exact fresh
          · exact fun seen => unseen r hr (List.mem_cons_of_mem _ seen)

/-- Registered under distinct signatures, all definitions come into the table. -/
theorem nodup_definitions (nodup : (all.map signature).Nodup) :
    ((all.filterMap definition?).map Definition.signature).Nodup := by
  rw [List.Nodup, List.pairwise_map, List.pairwise_filterMap]
  refine (List.pairwise_map.mp nodup).imp ?_
  intro r r' distinct d hd d' hd' same
  rw [signature_of_definition? hd, signature_of_definition? hd'] at same
  exact distinct same

/-- Under distinct signatures, what is registered is the first with its signature, and so it is
the one that is found. -/
theorem find?_of_nodup (nodup : (all.map signature).Nodup) (mem : r ∈ all)
    (hd : r.definition? = some d) :
    (all.filterMap definition?).find? (·.signature = r.signature) = some d := by
  induction all with
  | nil => cases mem
  | cons first rest ih =>
      rw [List.map_cons, List.nodup_cons] at nodup
      rcases List.mem_cons.mp mem with rfl | mem
      · rw [List.filterMap_cons_some hd, List.find?_cons_of_pos]
        simpa using signature_of_definition? hd
      · have other : first.signature ≠ r.signature := fun same =>
          nodup.1 (same ▸ List.mem_map_of_mem mem)
        cases hfirst : first.definition? with
        | none =>
            rw [List.filterMap_cons_none hfirst]
            exact ih nodup.2 mem
        | some d' =>
            rw [List.filterMap_cons_some hfirst, List.find?_cons_of_neg]
            · exact ih nodup.2 mem
            · simpa [signature_of_definition? hfirst] using other

/-- A function has its name and its arity as its signature. -/
theorem signature_of_function? {name : String} {arity : Nat}
    (h : r.function? = some (name, arity)) : r.signature = ⟨name, arity⟩ := by
  cases r with
  | operator name fixity body? desugar? => cases h
  | function name arity body =>
      cases h
      rfl

/-- Under distinct signatures no function is registered twice. -/
theorem nodup_functions (unique : (all.map signature).Nodup) : (all.filterMap function?).Nodup := by
  rw [List.Nodup, List.pairwise_filterMap]
  refine (List.pairwise_map.mp unique).imp ?_
  rintro r r' distinct entry h entry' h' rfl
  exact distinct ((signature_of_function? h).trans (signature_of_function? h').symm)

/-- The names of functions have one arity each.  A directory that is looked up by name alone
relies on it. -/
theorem arity_unique (h : ambiguous? all = none)
    {name : String} {arity arity' : Nat} (mem : (name, arity) ∈ all.filterMap function?)
    (mem' : (name, arity') ∈ all.filterMap function?) : arity = arity' := by
  have listed : arity ∈ aritiesOf name all :=
    List.mem_map.mpr ⟨(name, arity), List.mem_filter.mpr ⟨mem, by simp⟩, rfl⟩
  have listed' : arity' ∈ aritiesOf name all :=
    List.mem_map.mpr ⟨(name, arity'), List.mem_filter.mpr ⟨mem', by simp⟩, rfl⟩
  obtain ⟨r, hr, hfunction⟩ := List.mem_filterMap.mp mem
  have named : r.name = name := by
    cases r with
    | operator name fixity body? desugar? => cases hfunction
    | function name arity body => exact congrArg Prod.fst (Option.some.inj hfunction)
  have single := List.findSome?_eq_none_iff.mp h r hr
  rw [named] at single
  cases arities : aritiesOf name all with
  | nil =>
      rw [arities] at listed
      cases listed
  | cons first rest =>
      cases rest with
      | nil =>
          rw [arities, List.mem_singleton] at listed listed'
          rw [listed, listed']
      | cons second rest => simp [arities] at single

/-- So no two registered functions have the same name. -/
theorem nodup_functionNames (unique : (all.map signature).Nodup) (single : ambiguous? all = none) :
    ((all.filterMap function?).map Prod.fst).Nodup := by
  rw [List.Nodup, List.pairwise_map]
  refine (nodup_functions unique).imp_of_mem ?_
  rintro ⟨name, arity⟩ ⟨name', arity'⟩ mem mem' distinct rfl
  exact distinct (congrArg (Prod.mk name) (arity_unique single mem mem'))

/-- Every name comes with one fixity only. -/
def FixitiesAgree (entries : List (String × Fixity)) : Prop :=
  ∀ name f f', (name, f) ∈ entries → (name, f') ∈ entries → f = f'

/-- Fixities still agree if those of one more name are all the same. -/
theorem FixitiesAgree.cons {seen : List (String × Fixity)} {name : String} {fixity : Fixity}
    (h : FixitiesAgree seen) (same : ∀ f, (name, f) ∈ seen → f = fixity) :
    FixitiesAgree ((name, fixity) :: seen) := by
  intro name' f f' hf hf'
  rw [List.mem_cons, Prod.mk.injEq] at hf hf'
  rcases hf with ⟨rfl, rfl⟩ | hf
  · rcases hf' with ⟨-, rfl⟩ | hf'
    · rfl
    · exact (same f' hf').symm
  · rcases hf' with ⟨rfl, rfl⟩ | hf'
    · exact same f hf
    · exact h name' f f' hf hf'

/-- The check finds nothing only if each name comes with one fixity, among those that it has seen
and those that are to come. -/
theorem fixitiesAgree_of_conflict?_eq_none {seen entries : List (String × Fixity)}
    (agree : FixitiesAgree seen) (h : conflict? seen entries = none) :
    FixitiesAgree (entries ++ seen) := by
  induction entries generalizing seen with
  | nil => exact agree
  | cons entry rest ih =>
      obtain ⟨name, fixity⟩ := entry
      have later : FixitiesAgree (rest ++ (name, fixity) :: seen) := by
        rw [conflict?] at h
        split at h
        · rename_i unseen
          refine ih (agree.cons ?_) h
          intro f hf
          have := List.find?_eq_none.mp unseen _ hf
          simp at this
        · rename_i name' first found
          -- The name is there already, and was accepted with the same fixity only.
          split at h
          · rename_i same
            refine ih (agree.cons ?_) h
            intro f hf
            have hname : name' = name := by simpa using List.find?_some found
            subst hname
            rw [agree name' f first hf (List.mem_of_find?_eq_some found), same]
          · cases h
      intro name' f f' hf hf'
      refine later name' f f' ?_ ?_
      · simpa [or_left_comm] using hf
      · simpa [or_left_comm] using hf'

end Registration

namespace Registry

variable {all : List Registration} {registry : Registry} {r : Registration} {d : Definition}

/-- What is built has been checked: a registry is assembled from registrations without a fault,
and in no other way. -/
theorem exists_assemble_of_build (h : build all = .ok registry) :
    ∃ sound : Registration.firstFault? all = none, registry = assemble all sound := by
  unfold build at h
  split at h
  · cases h
  · rename_i sound
    exact ⟨sound, (Except.ok.inj h).symm⟩

section Assembled

variable (sound : Registration.firstFault? all = none)

include sound

theorem nodup_signatures : (all.map Registration.signature).Nodup := by
  obtain ⟨-, unique, -⟩ := Registration.firstFault?_eq_none_iff.mp sound
  exact (Registration.nodup_of_duplicate?_eq_none unique).1

/-- As no signature is registered twice, no definition takes the place of another.  A table that
overwrites would otherwise keep the last one only. -/
theorem definitions_assemble :
    (assemble all sound).definitions.entries = all.filterMap Registration.definition? :=
  Table.entries_ofList (Registration.nodup_definitions (nodup_signatures sound))

/-- As moreover no name of a function has two arities, no function takes the place of another. -/
theorem arities_assemble :
    (assemble all sound).directory.arities.entries = all.filterMap Registration.function? := by
  obtain ⟨-, -, single, -⟩ := Registration.firstFault?_eq_none_iff.mp sound
  exact Table.entries_ofList (Registration.nodup_functionNames (nodup_signatures sound) single)

/-- So the definitions of a registry are those that are registered. -/
theorem mem_definitions_assemble {d : Definition} :
    d ∈ (assemble all sound).definitions ↔ d ∈ all.filterMap Registration.definition? :=
  iff_of_eq (congrArg (d ∈ ·) (definitions_assemble sound))

theorem mem_arities_assemble {entry : String × Nat} :
    entry ∈ (assemble all sound).directory.arities ↔
      entry ∈ all.filterMap Registration.function? :=
  iff_of_eq (congrArg (entry ∈ ·) (arities_assemble sound))

end Assembled

/-- **Everything that is registered is found**, under its own signature. -/
theorem find?_of_build (h : build all = .ok registry) (mem : r ∈ all)
    (hd : r.definition? = some d) : registry.find? r.signature = some d := by
  obtain ⟨sound, rfl⟩ := exists_assemble_of_build h
  rw [find?, Table.find?, definitions_assemble sound]
  exact Registration.find?_of_nodup (nodup_signatures sound) mem hd

/-- **Everything in the table was registered.** -/
theorem exists_registration (h : build all = .ok registry) (mem : d ∈ registry.definitions) :
    ∃ r ∈ all, r.definition? = some d := by
  obtain ⟨sound, rfl⟩ := exists_assemble_of_build h
  exact List.mem_filterMap.mp ((mem_definitions_assemble sound).mp mem)

/-- The operators that are tried are those that are registered; placing them in order leaves none
out. -/
theorem mem_operators_assemble {sound : Registration.firstFault? all = none}
    {operator : String × Fixity} :
    operator ∈ (assemble all sound).operators ↔ operator ∈ all.filterMap Registration.fixity? :=
  mem_foldr_place

/-- What may be relied on in a registry that was built. -/
structure Regular (registry : Registry) : Prop where
  /-- The names of operators have no character with a meaning of its own. -/
  unreserved : ∀ operator ∈ registry.operators, ∀ c ∈ operator.1.toList,
    Registration.isReserved c = false
  /-- The name of an operator determines its fixity. -/
  fixities : Registration.FixitiesAgree registry.operators
  /-- A function with a name is registered. -/
  function : ∀ entry ∈ registry.directory.arities,
    ∃ d, registry.find? ⟨entry.1, entry.2⟩ = some d ∧ d.role = .function

/-- **Every registry that was built is regular.**  This is the form in which the rules are used by
whatever reads texts or calls functions by name. -/
theorem regular_of_build (h : build all = .ok registry) : registry.Regular := by
  obtain ⟨sound, rfl⟩ := exists_assemble_of_build h
  obtain ⟨faultless, -, -, agree, -⟩ := Registration.firstFault?_eq_none_iff.mp sound
  refine ⟨?_, ?_, ?_⟩
  · intro operator mem
    obtain ⟨r, hr, hfixity⟩ := List.mem_filterMap.mp (mem_operators_assemble.mp mem)
    have named : r.name = operator.1 := by
      cases r with
      | operator name fixity body? desugar? => exact congrArg Prod.fst (Option.some.inj hfixity)
      | function name arity body => cases hfixity
    rw [← named]
    exact (Registration.unreserved_of_fault?_eq_none
      (List.findSome?_eq_none_iff.mp faultless r hr)).2
  · have none_seen : Registration.FixitiesAgree [] := nofun
    intro name f f' hf hf'
    refine Registration.fixitiesAgree_of_conflict?_eq_none none_seen agree name f f' ?_ ?_
    · simpa using mem_operators_assemble.mp hf
    · simpa using mem_operators_assemble.mp hf'
  · intro entry mem
    obtain ⟨r, hr, hentry⟩ := List.mem_filterMap.mp ((mem_arities_assemble sound).mp mem)
    cases r with
    | operator name fixity body? desugar? => cases hentry
    | function name arity body =>
        obtain rfl := Option.some.inj hentry
        exact ⟨_, find?_of_build h hr rfl, rfl⟩

theorem regular_standard : Registry.standard.Regular :=
  regular_of_build Standard.build_library

end Registry

end RuleEngine
