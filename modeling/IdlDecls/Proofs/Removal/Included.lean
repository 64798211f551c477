import IdlDecls.Proofs.Merge.Included
import IdlDecls.Proofs.Removal.Marks

/-!
# Included mixins that removals leave

The mixins that an interface includes are a list of texts, each of which is its own identity. So a
template for the list takes every occurrence of the names that it lists and leaves the others in their
order (`Graph.implementsOf_prune`); a template that has nothing for the list, here or above, leaves it
as it is.
-/

namespace IdlDecls

open Read

/-! ## Names -/

/-- What a template leaves of a list of names: the names that it does not list. -/
def Template.keepsName : Option Template → String → Bool
  | none, _ => true
  | some (.names listed), name => !listed.contains name
  | some _, _ => false

/-- **A list of names is left without the names that are listed.** -/
theorem names_left {template : Option Template} {left : List (String × Json)} {field : String}
    {names result : Option (List String)}
    (h : Pruned template (names.map fun names => .arr (names.map .str)) (Entries.get? left field))
    (hread : Read.optional (Read.list text) left field = .ok result) :
    result.getD [] = (names.getD []).filter (Template.keepsName template) := by
  rw [Read.optional] at hread
  generalize Entries.get? left field = kept at h hread
  have hwritten : ∀ l : List String, kept = some (.arr (l.map .str)) → result = some l := by
    rintro l rfl
    obtain ⟨values, hvalues, rfl⟩ := map_eq_ok_iff.1 hread
    have hback : (l.map .str).mapM text = .ok l := mapM_written fun s _ => restores_text s
    exact congrArg some (Except.ok.inj (hvalues.symm.trans hback))
  cases names with
  | none =>
    cases pruned_absent_iff.1 h
    cases pure_eq_ok_iff.1 hread
    rfl
  | some l =>
    cases template with
    | none =>
      rw [hwritten l (pruned_unsaid_iff.1 h)]
      exact (List.filter_eq_self.2 fun _ _ => rfl).symm
    | some template =>
      cases template with
      | remove =>
        cases pruned_remove_iff.1 h
        cases pure_eq_ok_iff.1 hread
        exact (List.filter_eq_nil_iff.2 fun _ _ => Bool.false_ne_true).symm
      | names listed =>
        have hkept : some (Json.arr ((l.filter fun name => !listed.contains name).map .str)) =
            kept := by
          have hfilter := Except.ok.inj h
          rwa [List.filter_map] at hfilter
        rw [hwritten _ hkept.symm]
        rfl
      | nested entries => cases h

/-! ## Interfaces -/

/-- What a removal template says of the list of mixins of an entry. -/
def Template.saidOfImplements (template : Template) (c : Collection) (name : String) :
    Option Template :=
  ((Family.of c).said template name).bind (·.at? "implements")

theorem Interface.implements_left {i j : Interface} (hi : i.extra.Beside Interface.keys)
    {template : Option Template} {kept : Json}
    (h : Pruned template (some (i.toJson .ascending)) (some kept))
    (hread : Interface.ofJson kept = .ok j) :
    j.implements.getD [] =
      (i.implements.getD []).filter (Template.keepsName (template.bind (·.at? "implements"))) := by
  obtain ⟨left, rfl, hleft⟩ := h.written hi
  have hfield := hleft "implements" (by decide)
  simp only [Interface.ofJson, bind_eq_ok_iff, pure_eq_ok_iff] at hread
  obtain ⟨_, hfields, _, -, _, -, _, -, _, -, _, -, _, -, implements, himplements, _, -, _, -, _, -,
    _, -, _, -, rfl⟩ := hread
  cases pure_eq_ok_iff.1 hfields
  exact names_left (by simpa using hfield) himplements

/-- **Pruning takes mixins by name**, all occurrences of a name or none. -/
theorem Graph.implementsOf_prune {g pruned : Graph} {template : Template} (hg : g.Tidy)
    (h : g.prune template = .ok pruned) (c : Collection) (name : String) :
    pruned.implementsOf c name =
      (g.implementsOf c name).filter (Template.keepsName (template.saidOfImplements c name)) := by
  obtain ⟨kept, hkept, hread⟩ := Graph.prunedEntry hg.extra h (.of c) name
  change Pruned ((Family.of c).said template name) ((c.get? g name).map _) kept at hkept
  change ReadAs _ kept (c.get? pruned name) at hread
  rw [Template.saidOfImplements, Graph.implementsOf, Graph.implementsOf, Graph.implements?,
    Graph.implements?]
  cases hi : c.get? g name with
  | none =>
    rw [hi, Option.map_none, pruned_absent_iff] at hkept
    subst hkept
    rw [show c.get? pruned name = none from hread]
    rfl
  | some i =>
    rw [hi, Option.map_some] at hkept
    by_cases hremove : (Family.of c).said template name = some .remove
    · rw [hremove, pruned_remove_iff] at hkept
      subst hkept
      rw [show c.get? pruned name = none from hread, hremove]
      exact (List.filter_eq_nil_iff.2 fun _ _ => Bool.false_ne_true).symm
    · have hextra : i.extra.Beside Interface.keys := by
        cases c with
        | interfaces => exact (hg.interfaces name i hi).extra
        | mixins => exact (hg.mixins name i hi).extra
      obtain ⟨left, rfl⟩ := hkept.exists_of_ne_remove hremove
      obtain ⟨_, hfilled, hnew⟩ := hread
      obtain ⟨j, hj, rfl⟩ := map_eq_ok_iff.1 hfilled
      have hleft := Interface.implements_left hextra hkept hj
      rw [hnew]
      exact hleft

end IdlDecls
