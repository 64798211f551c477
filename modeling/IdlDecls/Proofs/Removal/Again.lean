import IdlDecls.Proofs.Removal.Spared

/-!
# Pruning again

What a template leaves it leaves again (`Json.prune_again`), and two templates leave the same in
either order (`Pruned.commute`). Both go by the value: a template that is not the removal of a whole
value does to each field of an object what it says of it (`PrunedFields`), a list of names as much
as a nested template, and what is said of one field does not reach the others.
-/

namespace IdlDecls

/-! ## Pruning again -/

namespace Json

theorem removeNames_again {listed : List String} {value kept : Json}
    (h : removeNames listed value = .ok kept) : removeNames listed kept = .ok kept := by
  cases value with
  | arr items =>
    cases h
    rw [removeNames, List.filter_filter]
    simp only [Bool.and_self]
  | obj fields =>
    cases h
    rw [removeNames, List.filter_filter]
    simp only [Bool.and_self]
  | null | bool _ | num _ | str _ => cases h

/-- The fields that are left are left again if each of them is. -/
theorem pruneFields_cons_again {key : String} {value? : Option Json} {rest : List (String × Json)}
    {entries : List (String × Template)}
    (hvalue : Pruned (Entries.get? entries key) value? value?)
    (hrest : pruneFields rest entries = .ok rest) :
    pruneFields ((value?.map fun v => (key, v)).toList ++ rest) entries =
      .ok ((value?.map fun v => (key, v)).toList ++ rest) := by
  cases value? with
  | none => exact hrest
  | some value =>
    change pruneFields ((key, value) :: rest) entries = .ok ((key, value) :: rest)
    rw [pruneFields, templateFor?]
    cases ht : Entries.get? entries key with
    | none =>
      rw [hrest]
      rfl
    | some t =>
      rw [ht] at hvalue
      have hprune : value.prune t = .ok (some value) := hvalue
      rw [hrest]
      simp only [hprune]
      rfl

mutual

/-- **What a template leaves, it leaves again.** -/
theorem prune_again : ∀ {value kept : Json} {t : Template},
    value.prune t = .ok (some kept) → kept.prune t = .ok (some kept)
  | value, kept, .remove, h => by
    rw [prune] at h
    cases h
  | value, kept, .names listed, h => by
    rw [prune] at h ⊢
    obtain ⟨left, hleft, heq⟩ := map_eq_ok_iff.1 h
    cases heq
    exact map_eq_ok_iff.2 ⟨kept, removeNames_again hleft, rfl⟩
  | .obj fields, kept, .nested entries, h => by
    obtain ⟨left, hleft, heq⟩ := map_eq_ok_iff.1 h
    cases heq
    rw [prune, pruneFields_again hleft]
    rfl
  | .null, _, .nested _, h | .bool _, _, .nested _, h | .num _, _, .nested _, h
  | .str _, _, .nested _, h | .arr _, _, .nested _, h => by cases h

theorem pruneFields_again : ∀ {fields kept : List (String × Json)}
    {entries : List (String × Template)},
    pruneFields fields entries = .ok kept → pruneFields kept entries = .ok kept
  | [], _, _, h => by
    cases h
    rfl
  | (key, value) :: rest, _, entries, h => by
    obtain ⟨value?, rest', hvalue, hrest, rfl⟩ := pruneFields_cons h
    refine pruneFields_cons_again ?_ (pruneFields_again hrest)
    cases value? with
    | none => exact pruned_absent_iff.2 rfl
    | some left =>
      cases ht : Entries.get? entries key with
      | none => exact pruned_unsaid_iff.2 rfl
      | some t =>
        rw [ht] at hvalue
        have hprune : value.prune t = .ok (some left) := hvalue
        exact prune_again hprune

end

end Json

/-- The same of a value that may be absent or left out. -/
theorem Pruned.again {template : Option Template} {value kept : Option Json}
    (h : Pruned template value kept) : Pruned template kept kept := by
  cases kept with
  | none => exact pruned_absent_iff.2 rfl
  | some left =>
    cases template with
    | none => exact pruned_unsaid_iff.2 rfl
    | some t =>
      cases value with
      | none => cases pruned_absent_iff.1 h
      | some value =>
        have hprune : value.prune t = .ok (some left) := h
        exact Json.prune_again hprune

/-! ## Field by field -/

/-- What is left of fields one by one, where `said` tells what is said of a key. -/
def PrunedFields (said : String → Option Template) :
    List (String × Json) → List (String × Json) → Prop
  | [], kept => kept = []
  | (key, value) :: rest, kept => ∃ value? rest', Pruned (said key) (some value) value? ∧
      PrunedFields said rest rest' ∧ kept = (value?.map fun v => (key, v)).toList ++ rest'

section Fields

variable {said : String → Option Template} {fields kept : List (String × Json)}

/-- A field that may be absent in front of others. -/
theorem prunedFields_append_iff {key : String} {value? : Option Json}
    {rest : List (String × Json)} :
    PrunedFields said ((value?.map fun v => (key, v)).toList ++ rest) kept ↔
      ∃ left? rest', Pruned (said key) value? left? ∧ PrunedFields said rest rest' ∧
        kept = (left?.map fun v => (key, v)).toList ++ rest' := by
  cases value? with
  | none => simp
  | some value => rfl

theorem prunedFields_of_pruneFields {entries : List (String × Template)} :
    ∀ {fields kept : List (String × Json)}, Json.pruneFields fields entries = .ok kept →
      PrunedFields (Entries.get? entries) fields kept
  | [], _, h => by
    cases h
    rfl
  | (key, value) :: rest, _, h => by
    obtain ⟨value?, rest', hvalue, hrest, rfl⟩ := pruneFields_cons h
    exact ⟨value?, rest', hvalue, prunedFields_of_pruneFields hrest, rfl⟩

theorem prunedFields_filter (listed : List String) : ∀ fields : List (String × Json),
    PrunedFields (fun key => if key ∈ listed then some .remove else none) fields
      (fields.filter fun field => !listed.contains field.1)
  | [] => rfl
  | (key, value) :: rest => by
    by_cases hkey : key ∈ listed
    · exact ⟨none, _, by simp [hkey], prunedFields_filter listed rest, by simp [hkey]⟩
    · exact ⟨some value, _, by simp [hkey], prunedFields_filter listed rest, by simp [hkey]⟩

/-- **A template that does not remove an object does to each of its fields what it says of it.** -/
theorem Pruned.fieldwise {t : Template} {fields : List (String × Json)} {kept : Option Json}
    (ht : t ≠ .remove) (h : Pruned (some t) (some (.obj fields)) kept) :
    ∃ left, kept = some (.obj left) ∧ PrunedFields (fun key => t.at? key) fields left := by
  cases t with
  | remove => exact absurd rfl ht
  | names listed =>
    obtain ⟨_, hleft, rfl⟩ := map_eq_ok_iff.1 h
    cases hleft
    exact ⟨_, rfl, prunedFields_filter listed fields⟩
  | nested entries =>
    obtain ⟨left, hleft, rfl⟩ := map_eq_ok_iff.1 h
    exact ⟨left, rfl, prunedFields_of_pruneFields hleft⟩

end Fields

/-! ## Two templates -/

/-- Nothing but names can be said of the items of an array. -/
theorem Pruned.names_of_array {t : Template} {items : List Json} {kept : Option Json}
    (ht : t ≠ .remove) (h : Pruned (some t) (some (.arr items)) kept) :
    ∃ keeps : Json → Bool, kept = some (.arr (items.filter keeps)) ∧
      ∀ (items' : List Json) (kept' : Option Json),
        Pruned (some t) (some (.arr items')) kept' → kept' = some (.arr (items'.filter keeps)) := by
  cases t with
  | remove => exact absurd rfl ht
  | names listed => exact ⟨_, (Except.ok.inj h).symm, fun _ _ h' => (Except.ok.inj h').symm⟩
  | nested entries => cases h

/-- A value that is neither array nor object is removed or left as it is. -/
theorem Pruned.not_leaf {t : Template} {value : Json} {kept : Option Json} (ht : t ≠ .remove)
    (hvalue : value.isListable = false) : ¬ Pruned (some t) (some value) kept := by
  intro h
  cases t with
  | remove => exact ht rfl
  | names | nested =>
    cases value with
    | arr _ | obj _ => cases hvalue
    | null | bool _ | num _ | str _ => cases h

/-- Where one of two templates says nothing or removes the value, the order does not matter. -/
theorem Pruned.commute_of_plain {s t : Option Template} {value a ab b ba : Option Json}
    (hs : s = none ∨ s = some .remove) (ha : Pruned s value a) (hab : Pruned t a ab)
    (hb : Pruned t value b) (hba : Pruned s b ba) : ab = ba := by
  rcases hs with rfl | rfl
  · rw [pruned_unsaid_iff] at ha hba
    rw [ha] at hab
    rw [hab.unique hb, hba]
  · rw [pruned_remove_iff] at ha hba
    rw [ha, pruned_absent_iff] at hab
    rw [hab, hba]

mutual

/-- The induction is on the value, since what is said of the fields of an object is known only below
the two templates. -/
theorem Pruned.commute_value : ∀ {value : Json} {s t : Option Template} {a ab b ba : Option Json},
    Pruned s (some value) a → Pruned t a ab → Pruned t (some value) b → Pruned s b ba → ab = ba
  | value, s, t, a, ab, b, ba, ha, hab, hb, hba => by
    by_cases hs : s = none ∨ s = some .remove
    · exact Pruned.commute_of_plain hs ha hab hb hba
    by_cases ht : t = none ∨ t = some .remove
    · exact (Pruned.commute_of_plain ht hb hba ha hab).symm
    obtain ⟨s, rfl⟩ := Option.ne_none_iff_exists'.1 fun h => hs (Or.inl h)
    obtain ⟨t, rfl⟩ := Option.ne_none_iff_exists'.1 fun h => ht (Or.inl h)
    replace hs : s ≠ .remove := fun h => hs (Or.inr (congrArg some h))
    replace ht : t ≠ .remove := fun h => ht (Or.inr (congrArg some h))
    match value with
    | .null | .bool _ | .num _ | .str _ => exact absurd ha (Pruned.not_leaf hs rfl)
    | .arr items =>
      obtain ⟨p, rfl, hp⟩ := ha.names_of_array hs
      obtain ⟨q, rfl, hq⟩ := hb.names_of_array ht
      rw [hq _ _ hab, hp _ _ hba, List.filter_comm]
    | .obj fields =>
      obtain ⟨a', rfl, ha'⟩ := ha.fieldwise hs
      obtain ⟨b', rfl, hb'⟩ := hb.fieldwise ht
      obtain ⟨ab', rfl, hab'⟩ := hab.fieldwise ht
      obtain ⟨ba', rfl, hba'⟩ := hba.fieldwise hs
      rw [PrunedFields.commute ha' hab' hb' hba']

theorem PrunedFields.commute : ∀ {fields a ab b ba : List (String × Json)}
    {s t : String → Option Template}, PrunedFields s fields a → PrunedFields t a ab →
      PrunedFields t fields b → PrunedFields s b ba → ab = ba
  | [], a, ab, b, ba, s, t, ha, hab, hb, hba => by
    cases ha
    cases hb
    exact hab.trans hba.symm
  | (key, value) :: rest, a, ab, b, ba, s, t, ha, hab, hb, hba => by
    obtain ⟨x, a', hx, ha', rfl⟩ := ha
    obtain ⟨y, b', hy, hb', rfl⟩ := hb
    obtain ⟨xy, ab', hxy, hab', rfl⟩ := prunedFields_append_iff.1 hab
    obtain ⟨yx, ba', hyx, hba', rfl⟩ := prunedFields_append_iff.1 hba
    rw [Pruned.commute_value hx hxy hy hyx, PrunedFields.commute ha' hab' hb' hba']

end

/-- **Two templates leave the same in either order.** -/
theorem Pruned.commute {s t : Option Template} {value a ab b ba : Option Json}
    (ha : Pruned s value a) (hab : Pruned t a ab) (hb : Pruned t value b) (hba : Pruned s b ba) :
    ab = ba := by
  cases value with
  | none =>
    rw [pruned_absent_iff.1 ha, pruned_absent_iff] at hab
    rw [pruned_absent_iff.1 hb, pruned_absent_iff] at hba
    rw [hab, hba]
  | some value => exact Pruned.commute_value ha hab hb hba

end IdlDecls
