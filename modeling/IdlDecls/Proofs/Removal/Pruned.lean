import IdlDecls.Proofs.Keyed.Joined
import IdlDecls.Removal.Prune

/-!
# What pruning does to one field

A template says of each field of an object on its own what becomes of it (`Template.at?`), and a
pruned object holds under each key what that says (`Pruned.field`). Following the keys of a place
down, `Pruned` tells what is left there from the template and the value that was there, whatever
stands beside the way.
-/

namespace IdlDecls

/-- What a template says of the field of an object with a key, if anything. -/
def Template.at? (key : String) : Template → Option Template
  | .remove => some .remove
  | .names listed => if key ∈ listed then some .remove else none
  | .nested entries => Entries.get? entries key

/-- What is left of a value that may be absent under what is said of it. -/
def Pruned : Option Template → Option Json → Option Json → Prop
  | some template, some value, kept => value.prune template = .ok kept
  | _, value, kept => kept = value

@[simp] theorem pruned_absent_iff {template : Option Template} {kept : Option Json} :
    Pruned template none kept ↔ kept = none := by
  cases template <;> rfl

@[simp] theorem pruned_unsaid_iff {value kept : Option Json} :
    Pruned none value kept ↔ kept = value := by
  rfl

@[simp] theorem pruned_remove_iff {value kept : Option Json} :
    Pruned (some .remove) value kept ↔ kept = none := by
  cases value with
  | none => rfl
  | some value => simp [Pruned, Json.prune, eq_comm]

/-- A template leaves one value. -/
theorem Pruned.unique {template : Option Template} {value kept kept' : Option Json}
    (h : Pruned template value kept) (h' : Pruned template value kept') : kept = kept' := by
  cases template with
  | none => exact (pruned_unsaid_iff.1 h).trans (pruned_unsaid_iff.1 h').symm
  | some template =>
    cases value with
    | none => exact (pruned_absent_iff.1 h).trans (pruned_absent_iff.1 h').symm
    | some value => exact Except.ok.inj (Eq.trans (Eq.symm h) h')

/-! ## Fields -/

theorem Mismatch.within_eq_ok_iff {α : Type} {key : String} {m : Except Mismatch α} {value : α} :
    Mismatch.within key m = .ok value ↔ m = .ok value := by
  cases m <;> simp [Mismatch.within]

/-- One field at a time: it is left as its template says, and the others do not show. -/
theorem pruneFields_cons {key : String} {value : Json} {rest kept : List (String × Json)}
    {entries : List (String × Template)}
    (h : Json.pruneFields ((key, value) :: rest) entries = .ok kept) :
    ∃ value? rest', Pruned (Entries.get? entries key) (some value) value? ∧
      Json.pruneFields rest entries = .ok rest' ∧
      kept = (value?.map fun v => (key, v)).toList ++ rest' := by
  rw [Json.pruneFields, Json.templateFor?] at h
  cases ht : Entries.get? entries key with
  | none =>
    rw [ht] at h
    obtain ⟨rest', hrest, rfl⟩ := map_eq_ok_iff.1 h
    exact ⟨some value, rest', rfl, hrest, rfl⟩
  | some template =>
    rw [ht] at h
    cases hv : Mismatch.within key (value.prune template) with
    | error e => simp [hv] at h
    | ok value? =>
      have hpruned : value.prune template = .ok value? := Mismatch.within_eq_ok_iff.1 hv
      simp only [hv] at h
      cases value? with
      | none => exact ⟨none, kept, hpruned, h, rfl⟩
      | some left =>
        obtain ⟨rest', hrest, rfl⟩ := map_eq_ok_iff.1 h
        exact ⟨some left, rest', hpruned, hrest, rfl⟩

theorem mem_keys_of_pruneFields {entries : List (String × Template)} :
    ∀ {fields kept : List (String × Json)}, Json.pruneFields fields entries = .ok kept →
      ∀ e ∈ kept, ∃ d ∈ fields, d.1 = e.1
  | [], kept, h, e, he => by
    cases h
    cases he
  | (key, value) :: rest, kept, h, e, he => by
    obtain ⟨value?, rest', -, hrest, rfl⟩ := pruneFields_cons h
    rcases List.mem_append.1 he with he | he
    · obtain ⟨v, rfl, rfl⟩ : ∃ v, value? = some v ∧ (key, v) = e := by
        simpa [Option.mem_toList] using he
      exact ⟨(key, value), by simp, rfl⟩
    · obtain ⟨d, hd, hkey⟩ := mem_keys_of_pruneFields hrest e he
      exact ⟨d, by simp [hd], hkey⟩

/-- The induction is on the fields; that their keys ascend keeps a removed field from coming back
further down. -/
theorem get?_pruneFields {entries : List (String × Template)} :
    ∀ {fields kept : List (String × Json)}, Entries.Ascending fields →
      Json.pruneFields fields entries = .ok kept →
      Entries.Ascending kept ∧ ∀ key, Pruned (Entries.get? entries key) (Entries.get? fields key)
        (Entries.get? kept key)
  | [], kept, _, h => by
    cases h
    exact ⟨.nil, fun key => by simp [Entries.get?]⟩
  | (key, value) :: rest, kept, hasc, h => by
    obtain ⟨hhead, htail⟩ := List.pairwise_cons.1 hasc
    obtain ⟨value?, rest', hvalue, hrest, rfl⟩ := pruneFields_cons h
    obtain ⟨hasc', hfields⟩ := get?_pruneFields htail hrest
    have hlt : ∀ e ∈ rest', key < e.1 := by
      intro e he
      obtain ⟨d, hd, hkey⟩ := mem_keys_of_pruneFields hrest e he
      exact hkey ▸ hhead d hd
    refine ⟨?_, fun k => ?_⟩
    · cases value? with
      | none => exact hasc'
      | some v => exact List.pairwise_cons.2 ⟨hlt, hasc'⟩
    · rw [Entries.get?_append, Entries.get?]
      by_cases hk : key = k
      · subst hk
        have hnone : Entries.get? rest' key = none := Entries.get?_eq_none_of_lt hlt
        rw [if_pos rfl, hnone, Option.or_none]
        cases value? with
        | none => exact hvalue
        | some v => simpa [Entries.get?] using hvalue
      · rw [if_neg hk]
        cases value? with
        | none => exact hfields k
        | some v => simpa [Entries.get?, hk] using hfields k

theorem get?_filter_keys (listed : List String) (fields : List (String × Json)) (key : String) :
    Entries.get? (fields.filter fun field => !listed.contains field.1) key =
      if key ∈ listed then none else Entries.get? fields key := by
  induction fields with
  | nil => simp [Entries.get?]
  | cons e rest ih =>
    obtain ⟨k, v⟩ := e
    by_cases hk : k = key
    · subst hk
      by_cases hmem : k ∈ listed
      · rw [if_pos hmem] at ih ⊢
        rw [List.filter_cons_of_neg (by simpa using hmem), ih]
      · rw [if_neg hmem, List.filter_cons_of_pos (by simpa using hmem)]
        simp [Entries.get?]
    · have hskip : Entries.get? ((k, v) :: rest) key = Entries.get? rest key := by
        simp [Entries.get?, hk]
      rw [hskip, ← ih]
      by_cases hmem : k ∈ listed
      · rw [List.filter_cons_of_neg (by simpa using hmem)]
      · rw [List.filter_cons_of_pos (by simpa using hmem)]
        simp [Entries.get?, hk]

/-- **Every field of a pruned object is left as the template says of it.** -/
theorem Pruned.field {template : Option Template} {fields : List (String × Json)}
    {kept : Option Json} (hasc : Entries.Ascending fields)
    (h : Pruned template (some (.obj fields)) kept) :
    ∃ left, Entries.Ascending left ∧ (kept = some (.obj left) ∨ kept = none ∧ left = []) ∧
      ∀ key, Pruned (template.bind (·.at? key)) (Entries.get? fields key) (Entries.get? left key) := by
  cases template with
  | none =>
    cases pruned_unsaid_iff.1 h
    exact ⟨fields, hasc, Or.inl rfl, fun key => rfl⟩
  | some template =>
    cases template with
    | remove =>
      cases pruned_remove_iff.1 h
      refine ⟨[], .nil, Or.inr ⟨rfl, rfl⟩, fun key => ?_⟩
      rw [Option.bind_some, Template.at?, pruned_remove_iff]
      rfl
    | names listed =>
      obtain ⟨_, hleft, rfl⟩ := map_eq_ok_iff.1 h
      cases hleft
      refine ⟨_, hasc.filter _, Or.inl rfl, fun key => ?_⟩
      rw [get?_filter_keys, Option.bind_some, Template.at?]
      by_cases hkey : key ∈ listed
      · rw [if_pos hkey, if_pos hkey, pruned_remove_iff]
      · rw [if_neg hkey, if_neg hkey, pruned_unsaid_iff]
    | nested entries =>
      obtain ⟨left, hleft, rfl⟩ := map_eq_ok_iff.1 h
      obtain ⟨hasc', hfields⟩ := get?_pruneFields hasc hleft
      refine ⟨left, hasc', Or.inl rfl, fun key => ?_⟩
      rw [Option.bind_some, Template.at?]
      exact hfields key

end IdlDecls
