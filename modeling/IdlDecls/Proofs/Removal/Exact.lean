import IdlDecls.Proofs.Merge.Conserved
import IdlDecls.Proofs.Removal.Spared

/-!
# What exactly pruning removes

A path of keys leads through the objects of a value and, beside them, through the nested templates of
a template. `Template.Misfits` are the places where the two do not fit, and pruning fails at the first
of them (`Json.reports_prune`). Where it does not fail, what is left at the end of every path follows
from what the template says along it (`Json.pruned_at?`): a path is gone if the template takes its
value or one on the way (`Template.Takes`), and beyond that only the items of arrays are touched
(`Json.prune_exact`), by the names that they go by (`Json.GoesBy`).
-/

namespace IdlDecls

/-! ## Canonical values -/

theorem Json.canonicalFields_eq_map : ∀ fields : List (String × Json),
    canonicalFields fields = fields.map fun e => (e.1, e.2.canonical)
  | [] => rfl
  | (k, j) :: rest => by rw [canonicalFields, canonicalFields_eq_map rest, List.map_cons]

/-- The keys of a canonical object ascend, and its fields are canonical. -/
theorem Json.canonical_fields {fields : List (String × Json)}
    (h : (Json.obj fields).canonical = .obj fields) :
    Entries.Ascending fields ∧ ∀ e ∈ fields, e.2.canonical = e.2 := by
  rw [canonical, Json.obj.injEq] at h
  have hasc : Entries.Ascending fields := h ▸ Entries.ascending_sorted (canonicalFields fields)
  refine ⟨hasc, fun (key, value) hmem => ?_⟩
  have hget := Entries.get?_sorted (canonicalFields fields) key
  rw [h, (Entries.get?_eq_some_iff_mem hasc).2 hmem, canonicalFields_eq_map] at hget
  have hmap := List.mem_reverse.1 (Entries.mem_of_get? hget.symm)
  obtain ⟨⟨key', old⟩, hold, heq⟩ := List.mem_map.1 hmap
  obtain ⟨rfl, rfl⟩ := Prod.mk.inj heq
  -- the field that the canonical one comes from is the only one with its key
  have hboth := (Entries.get?_eq_some_iff_mem hasc).2 hold
  rw [(Entries.get?_eq_some_iff_mem hasc).2 hmem] at hboth
  exact congrArg canonical (Option.some.inj hboth)

theorem Json.canonical_of_get? {fields : List (String × Json)} {key : String} {value : Json}
    (h : (Json.obj fields).canonical = .obj fields) (hget : Entries.get? fields key = some value) :
    value.canonical = value :=
  (canonical_fields h).2 _ (Entries.mem_of_get? hget)

theorem Json.canonical_of_at? : ∀ {path : List String} {value inner : Json},
    value.canonical = value → value.at? path = some inner → inner.canonical = inner
  | [], _, _, hvalue, h => by
    cases h
    exact hvalue
  | _ :: _, .obj _, _, hvalue, h => by
    obtain ⟨next, hnext, hrest⟩ := Option.bind_eq_some_iff.1 h
    exact canonical_of_at? (canonical_of_get? hvalue hnext) hrest

/-! ## Nodes of a template -/

namespace Template

/-- The template that a path of keys leads to through nested templates. -/
def node? (t : Template) : List String → Option Template
  | [] => some t
  | key :: path =>
    match t with
    | .nested entries => (Entries.get? entries key).bind (·.node? path)
    | _ => none

/-- What a template says of the value that a path of keys leads to; with a value goes all that is
in it. -/
def along? (t : Template) : List String → Option Template
  | [] => some t
  | key :: path => (t.at? key).bind (·.along? path)

/-- A template takes the value that a path leads to: it removes that value, or it lists the last key
of the path. -/
def Takes (t : Template) (path : List String) : Prop :=
  t.node? path = some .remove ∨
    ∃ parent key listed, path = parent ++ [key] ∧ t.node? parent = some (.names listed) ∧
      key ∈ listed

theorem takes_nil_iff {t : Template} : t.Takes [] ↔ t = .remove := by
  simp [Takes, node?]

theorem takes_cons_names_iff {listed : List String} {key : String} {path : List String} :
    (Template.names listed).Takes (key :: path) ↔ path = [] ∧ key ∈ listed := by
  constructor
  · rintro (h | ⟨parent, last, listed', heq, hnode, hmem⟩)
    · cases h
    · cases parent with
      | nil =>
        obtain ⟨rfl, rfl⟩ := List.cons.inj heq
        cases hnode
        exact ⟨rfl, hmem⟩
      | cons => cases hnode
  · rintro ⟨rfl, hmem⟩
    exact Or.inr ⟨[], key, listed, rfl, rfl, hmem⟩

theorem takes_cons_nested_iff {entries : List (String × Template)} {key : String}
    {path : List String} : (Template.nested entries).Takes (key :: path) ↔
      ∃ t, Entries.get? entries key = some t ∧ t.Takes path := by
  constructor
  · rintro (h | ⟨parent, last, listed, heq, hnode, hmem⟩)
    · obtain ⟨t, ht, hnode⟩ := Option.bind_eq_some_iff.1 h
      exact ⟨t, ht, Or.inl hnode⟩
    · cases parent with
      | nil => cases hnode
      | cons first parent =>
        obtain ⟨rfl, rfl⟩ := List.cons.inj heq
        obtain ⟨t, ht, hnode⟩ := Option.bind_eq_some_iff.1 hnode
        exact ⟨t, ht, Or.inr ⟨parent, last, listed, rfl, hnode, hmem⟩⟩
  · rintro ⟨t, ht, hnode | ⟨parent, last, listed, rfl, hnode, hmem⟩⟩
    · exact Or.inl (Option.bind_eq_some_iff.2 ⟨t, ht, hnode⟩)
    · exact Or.inr ⟨key :: parent, last, listed, rfl,
        Option.bind_eq_some_iff.2 ⟨t, ht, hnode⟩, hmem⟩

@[simp] theorem along?_remove : ∀ path : List String, remove.along? path = some remove
  | [] => rfl
  | _ :: path => along?_remove path

/-- A value is gone if the template takes it or a value on the way to it. -/
theorem along?_eq_remove_iff : ∀ {path : List String} {t : Template},
    t.along? path = some .remove ↔ ∃ taken, taken <+: path ∧ t.Takes taken
  | [], t => by
    simp [along?, takes_nil_iff]
  | key :: path, t => by
    have hpre : (∃ taken, taken <+: key :: path ∧ t.Takes taken) ↔
        t = .remove ∨ ∃ taken, taken <+: path ∧ t.Takes (key :: taken) := by
      simp only [List.prefix_cons_iff]
      constructor
      · rintro ⟨taken, rfl | ⟨rest, rfl, hrest⟩, htakes⟩
        · exact Or.inl (takes_nil_iff.1 htakes)
        · exact Or.inr ⟨rest, hrest, htakes⟩
      · rintro (rfl | ⟨rest, hrest, htakes⟩)
        · exact ⟨[], Or.inl rfl, takes_nil_iff.2 rfl⟩
        · exact ⟨key :: rest, Or.inr ⟨rest, rfl, hrest⟩, htakes⟩
    rw [hpre, along?]
    cases t with
    | remove => simp [at?]
    | names listed =>
      by_cases hkey : key ∈ listed
      · simp [at?, hkey, takes_cons_names_iff]
      · simp [at?, hkey, takes_cons_names_iff]
    | nested entries =>
      cases ht : Entries.get? entries key with
      | none => simp [at?, ht, takes_cons_nested_iff]
      | some t => simp [at?, ht, takes_cons_nested_iff, along?_eq_remove_iff]

theorem along?_of_node? : ∀ {path : List String} {t node : Template},
    t.node? path = some node → t.along? path = some node
  | [], _, _, h => h
  | _ :: _, .nested _, _, h => by
    obtain ⟨t, ht, hnode⟩ := Option.bind_eq_some_iff.1 h
    exact Option.bind_eq_some_iff.2 ⟨t, ht, along?_of_node? hnode⟩

/-- What is said of a value is a node of the template or the removal of something above it. -/
theorem node?_of_along? : ∀ {path : List String} {t said : Template},
    t.along? path = some said → said ≠ .remove → t.node? path = some said
  | [], _, _, h, _ => h
  | key :: path, t, said, h, hsaid => by
    obtain ⟨next, hnext, hrest⟩ := Option.bind_eq_some_iff.1 h
    have hnode := node?_of_along? hrest hsaid
    have hremove : next ≠ .remove := by
      rintro rfl
      rw [along?_remove] at hrest
      exact hsaid (Option.some.inj hrest).symm
    cases t with
    | remove => exact absurd (Option.some.inj hnext).symm hremove
    | names listed =>
      obtain ⟨-, hnext⟩ := Option.ite_none_right_eq_some.1 hnext
      exact absurd (Option.some.inj hnext).symm hremove
    | nested entries => exact Option.bind_eq_some_iff.2 ⟨next, hnext, hnode⟩

end Template

/-! ## What is left along a path -/

/-- What is left of a value that is no object is none either. -/
theorem Pruned.at?_cons_of_not_object {template : Option Template} {value : Json}
    {kept : Option Json} (hvalue : ∀ fields, value ≠ .obj fields)
    (h : Pruned template (some value) kept) (key : String) (path : List String) :
    kept.bind (·.at? (key :: path)) = none := by
  have hat : ∀ {left : Json}, (∀ fields, left ≠ .obj fields) → left.at? (key :: path) = none := by
    intro left hleft
    cases left with
    | obj fields => exact absurd rfl (hleft fields)
    | null | bool _ | num _ | str _ | arr _ => rfl
  rcases template with _ | _ | listed | entries
  · rw [pruned_unsaid_iff.1 h, Option.bind_some, hat hvalue]
  · rw [pruned_remove_iff.1 h, Option.bind_none]
  · rw [Pruned, Json.prune] at h
    obtain ⟨left, hleft, rfl⟩ := map_eq_ok_iff.1 h
    cases value with
    | arr items =>
      cases hleft
      rfl
    | obj fields => exact absurd rfl (hvalue fields)
    | null | bool _ | num _ | str _ => cases hleft
  · cases value with
    | obj fields => exact absurd rfl (hvalue fields)
    | null | bool _ | num _ | str _ | arr _ => cases h

/-- **What is left at the end of a path** is what the template says along it of the value that was
there. The induction follows the path through the fields of the objects. -/
theorem Json.pruned_at? : ∀ (path : List String) {template : Option Template} {value : Json}
    {kept : Option Json}, value.canonical = value → Pruned template (some value) kept →
      Pruned (template.bind (·.along? path)) (value.at? path) (kept.bind (·.at? path))
  | [], template, value, kept, _, h => by
    simpa [Template.along?, Json.at?] using h
  | key :: path, template, value, kept, hvalue, h => by
    cases value with
    | obj fields =>
      obtain ⟨left, -, hkept, hfields⟩ := Pruned.field (canonical_fields hvalue).1 h
      have hleft : kept.bind (·.at? (key :: path)) =
          (Entries.get? left key).bind (·.at? path) := by
        rcases hkept with rfl | ⟨rfl, rfl⟩ <;> rfl
      have hsaid : template.bind (·.along? (key :: path)) =
          (template.bind (·.at? key)).bind (·.along? path) := by
        rw [Option.bind_assoc]
        rfl
      rw [hleft, hsaid, Json.at?]
      have hfield := hfields key
      cases hget : Entries.get? fields key with
      | none =>
        rw [hget, pruned_absent_iff] at hfield
        rw [hfield]
        exact pruned_absent_iff.2 rfl
      | some inner =>
        rw [hget] at hfield
        exact pruned_at? path (canonical_of_get? hvalue hget) hfield
    | null | bool _ | num _ | str _ | arr _ =>
      rw [Pruned.at?_cons_of_not_object (by nofun) h key path]
      exact pruned_absent_iff.2 rfl

/-! ## Misfits -/

/-- What a template needs a value to be that is not, if it does not fit. -/
def Template.misfit? : Template → Json → Option Shape
  | .remove, _ => none
  | .names _, value => if value.isListable then none else some .array
  | .nested _, .obj _ => none
  | .nested _, _ => some .object

/-- A path leads through the objects of a value and the nested templates of a template to a value
that its template does not fit. -/
def Template.Misfits (t : Template) (value : Json) (e : Mismatch) : Prop :=
  ∃ node inner, t.node? e.path = some node ∧ value.at? e.path = some inner ∧
    node.misfit? inner = some e.expected

/-- A misfit in one of the fields of an object. -/
def FieldMisfits (entries : List (String × Template)) (fields : List (String × Json))
    (e : Mismatch) : Prop :=
  ∃ key path t value, e.path = key :: path ∧ Entries.get? entries key = some t ∧
    Entries.get? fields key = some value ∧ t.Misfits value ⟨path, e.expected⟩

theorem Template.misfits_nested_iff {entries : List (String × Template)}
    {fields : List (String × Json)} {e : Mismatch} :
    (Template.nested entries).Misfits (.obj fields) e ↔ FieldMisfits entries fields e := by
  obtain ⟨path, expected⟩ := e
  constructor
  · rintro ⟨node, inner, hnode, hinner, hmisfit⟩
    cases path with
    | nil =>
      cases hnode
      cases hinner
      cases hmisfit
    | cons key path =>
      obtain ⟨t, ht, hnode⟩ := Option.bind_eq_some_iff.1 hnode
      obtain ⟨value, hvalue, hinner⟩ := Option.bind_eq_some_iff.1 hinner
      exact ⟨key, path, t, value, rfl, ht, hvalue, node, inner, hnode, hinner, hmisfit⟩
  · rintro ⟨key, path, t, value, rfl, ht, hvalue, node, inner, hnode, hinner, hmisfit⟩
    exact ⟨node, inner, Option.bind_eq_some_iff.2 ⟨t, ht, hnode⟩,
      Option.bind_eq_some_iff.2 ⟨value, hvalue, hinner⟩, hmisfit⟩

/-- Below a value that a template stops at there are no misfits. -/
theorem Template.misfits_leaf_iff {t : Template} {value : Json} {e : Mismatch}
    (h : (∀ entries, t ≠ .nested entries) ∨ ∀ fields, value ≠ .obj fields) :
    t.Misfits value e ↔ e.path = [] ∧ t.misfit? value = some e.expected := by
  obtain ⟨path, expected⟩ := e
  cases path with
  | nil => simp [Misfits, node?, Json.at?]
  | cons key path =>
    refine iff_of_false ?_ nofun
    rintro ⟨node, inner, hnode, hinner, -⟩
    rcases h with h | h
    · cases t with
      | nested entries => exact h entries rfl
      | remove | names _ => cases hnode
    · cases value with
      | obj fields => exact h fields rfl
      | null | bool _ | num _ | str _ | arr _ => cases hinner

/-! ## The first misfit -/

/-- A place is the first of some: it is one of them, and every other comes later in the order in which
an object's fields are gone through, each with all that is in it. -/
structure FirstMisfit (misfits : Mismatch → Prop) (e : Mismatch) : Prop where
  misfit : misfits e
  first : ∀ other, misfits other → other = e ∨ e.path < other.path

/-- A run ends well if there is no misfit, and fails at the first if there is one. -/
def Reports {α : Type} (misfits : Mismatch → Prop) : Except Mismatch α → Prop
  | .ok _ => ∀ e, ¬ misfits e
  | .error e => FirstMisfit misfits e

section Reports

variable {α β : Type} {misfits : Mismatch → Prop}

theorem reports_map_iff {f : α → β} {run : Except Mismatch α} :
    Reports misfits (f <$> run) ↔ Reports misfits run := by
  cases run <;> rfl

theorem Reports.congr {misfits' : Mismatch → Prop} {run : Except Mismatch α}
    (heq : ∀ e, misfits' e ↔ misfits e) (h : Reports misfits run) : Reports misfits' run := by
  have hsame : misfits' = misfits := funext fun e => propext (heq e)
  rwa [hsame]

theorem FirstMisfit.leaf {e : Mismatch} (h : ∀ other, misfits other ↔ other = e) :
    FirstMisfit misfits e :=
  ⟨(h e).2 rfl, fun other hother => Or.inl ((h other).1 hother)⟩

end Reports

section Fields

variable {entries : List (String × Template)} {key : String} {value : Json}
  {rest : List (String × Json)} {e : Mismatch}

/-- A misfit in some fields is one in the first or one in the others, under a greater key. -/
theorem fieldMisfits_cons_iff (hasc : Entries.Ascending ((key, value) :: rest)) :
    FieldMisfits entries ((key, value) :: rest) e ↔
      (∃ t path, Entries.get? entries key = some t ∧ e.path = key :: path ∧
        t.Misfits value ⟨path, e.expected⟩) ∨ FieldMisfits entries rest e := by
  constructor
  · rintro ⟨k, path, t, v, hpath, ht, hv, hmisfit⟩
    rcases (Entries.get?_cons_eq_some_iff hasc).1 hv with ⟨rfl, rfl⟩ | hv
    · exact Or.inl ⟨t, path, ht, hpath, hmisfit⟩
    · exact Or.inr ⟨k, path, t, v, hpath, ht, hv, hmisfit⟩
  · rintro (⟨t, path, ht, hpath, hmisfit⟩ | ⟨k, path, t, v, hpath, ht, hv, hmisfit⟩)
    · exact ⟨key, path, t, value, hpath, ht,
        (Entries.get?_cons_eq_some_iff hasc).2 (Or.inl ⟨rfl, rfl⟩), hmisfit⟩
    · exact ⟨k, path, t, v, hpath, ht, (Entries.get?_cons_eq_some_iff hasc).2 (Or.inr hv), hmisfit⟩

theorem lt_of_fieldMisfits (hasc : Entries.Ascending ((key, value) :: rest))
    (h : FieldMisfits entries rest e) (path : List String) : key :: path < e.path := by
  obtain ⟨k, tail, t, v, hpath, -, hv, -⟩ := h
  have hlt : key < k := (List.pairwise_cons.1 hasc).1 _ (Entries.mem_of_get? hv)
  rw [hpath, List.cons_lt_cons_iff]
  exact Or.inl hlt

end Fields

/-- A misfit inside a field that comes first is the first of all. -/
theorem FirstMisfit.within {entries : List (String × Template)} {key : String} {value : Json}
    {rest : List (String × Json)} {t : Template} {e : Mismatch}
    (hasc : Entries.Ascending ((key, value) :: rest)) (ht : Entries.get? entries key = some t)
    (h : FirstMisfit (t.Misfits value) e) :
    FirstMisfit (FieldMisfits entries ((key, value) :: rest)) ⟨key :: e.path, e.expected⟩ where
  misfit := (fieldMisfits_cons_iff hasc).2 (Or.inl ⟨t, e.path, ht, rfl, h.misfit⟩)
  first := by
    intro other hother
    rcases (fieldMisfits_cons_iff hasc).1 hother with ⟨t', path, ht', hpath, hmisfit⟩ | hrest
    · obtain rfl : t = t' := Option.some.inj (ht.symm.trans ht')
      obtain ⟨path', expected⟩ := other
      cases hpath
      rcases h.first _ hmisfit with rfl | hlt
      · exact Or.inl rfl
      · exact Or.inr (List.cons_lt_cons_iff.2 (Or.inr ⟨rfl, hlt⟩))
    · exact Or.inr (lt_of_fieldMisfits hasc hrest e.path)

namespace Json

mutual

/-- **Pruning fails at the first misfit**, and only if there is one. -/
theorem reports_prune : ∀ (value : Json) (t : Template), value.canonical = value →
    Reports (t.Misfits value) (value.prune t)
  | value, .remove, _ => by
    rw [prune]
    intro e he
    obtain ⟨-, hmisfit⟩ := (Template.misfits_leaf_iff (Or.inl (by nofun))).1 he
    cases hmisfit
  | value, .names listed, _ => by
    rw [prune, reports_map_iff]
    have hleaf : ∀ e, (Template.names listed).Misfits value e ↔
        e.path = [] ∧ (Template.names listed).misfit? value = some e.expected :=
      fun e => Template.misfits_leaf_iff (Or.inl (by nofun))
    cases value with
    | arr _ | obj _ =>
      intro e he
      cases ((hleaf e).1 he).2
    | null | bool _ | num _ | str _ =>
      refine FirstMisfit.leaf fun other => (hleaf other).trans ?_
      obtain ⟨path, expected⟩ := other
      simp [Template.misfit?, isListable, eq_comm]
  | .obj fields, .nested entries, hvalue => by
    obtain ⟨hasc, hfields⟩ := canonical_fields hvalue
    rw [prune, reports_map_iff]
    exact (reports_pruneFields fields entries hasc hfields).congr fun e =>
      Template.misfits_nested_iff
  | .null, .nested entries, _ | .bool _, .nested entries, _ | .num _, .nested entries, _
  | .str _, .nested entries, _ | .arr _, .nested entries, _ => by
    rw [prune]
    · refine FirstMisfit.leaf fun other => (Template.misfits_leaf_iff (Or.inr (by nofun))).trans ?_
      obtain ⟨path, expected⟩ := other
      simp [Template.misfit?, eq_comm]
    · nofun

theorem reports_pruneFields : ∀ (fields : List (String × Json))
    (entries : List (String × Template)), Entries.Ascending fields →
    (∀ e ∈ fields, e.2.canonical = e.2) →
      Reports (FieldMisfits entries fields) (pruneFields fields entries)
  | [], entries, _, _ => by
    rw [pruneFields]
    rintro e ⟨key, path, t, value, -, -, hvalue, -⟩
    cases hvalue
  | (key, value) :: rest, entries, hasc, hfields => by
    have hrest : Reports (FieldMisfits entries rest) (pruneFields rest entries) :=
      reports_pruneFields rest entries (List.pairwise_cons.1 hasc).2
        fun e he => hfields e (List.mem_cons_of_mem _ he)
    rw [pruneFields, templateFor?]
    cases ht : Entries.get? entries key with
    | none =>
      simp only [reports_map_iff]
      refine hrest.congr fun e => (fieldMisfits_cons_iff hasc).trans (or_iff_right ?_)
      rintro ⟨t, path, ht', -⟩
      rw [ht] at ht'
      cases ht'
    | some t =>
      have hhead := reports_prune value t (hfields _ (List.mem_cons_self ..))
      -- where the first field fits, the first misfit is that of the others
      have hothers : (∀ e, ¬ t.Misfits value e) →
          Reports (FieldMisfits entries ((key, value) :: rest)) (pruneFields rest entries) := by
        refine fun hfits => hrest.congr fun e =>
          (fieldMisfits_cons_iff hasc).trans (or_iff_right ?_)
        rintro ⟨t', path, ht', -, hmisfit⟩
        rw [ht] at ht'
        cases ht'
        exact hfits _ hmisfit
      dsimp only
      cases hprune : value.prune t with
      | error e =>
        rw [hprune] at hhead
        exact hhead.within hasc ht
      | ok left =>
        rw [hprune] at hhead
        cases left with
        | none => exact hothers hhead
        | some left => exact reports_map_iff.2 (hothers hhead)

end

end Json

/-! ## Items of an array -/

/-- An item of an array goes by a name: a text by itself, an object by its name, and by its new type
where its name is missing, empty or no text. -/
inductive Json.GoesBy : Json → String → Prop where
  | text {s : String} : Json.GoesBy (.str s) s
  | name {fields : List (String × Json)} {s : String} :
      Entries.get? fields "name" = some (.str s) → s ≠ "" → Json.GoesBy (.obj fields) s
  | newType {fields : List (String × Json)} {s : String} :
      (∀ name, Entries.get? fields "name" = some (.str name) → name = "") →
      Entries.get? fields "new-type" = some (.str s) → s ≠ "" → Json.GoesBy (.obj fields) s

/-- **An item goes by its identity and by nothing else.** -/
theorem Json.identity?_eq_some_iff {item : Json} {s : String} :
    item.identity? = some s ↔ item.GoesBy s := by
  constructor
  · intro h
    cases item with
    | str text =>
      obtain rfl := Option.some.inj h
      exact .text
    | obj fields =>
      rcases Option.or_eq_some_iff.1 h with hname | ⟨hnone, hnew⟩
      · obtain ⟨hname, hs⟩ := nonemptyText?_eq_some_iff.1 hname
        exact .name hname hs
      · obtain ⟨hnew, hs⟩ := nonemptyText?_eq_some_iff.1 hnew
        refine .newType (fun name hname => ?_) hnew hs
        by_contra hne
        cases hnone.symm.trans (nonemptyText?_eq_some_iff.2 ⟨hname, hne⟩)
    | null | bool _ | num _ | arr _ => cases h
  · rintro (_ | ⟨hname, hs⟩ | ⟨hnone, hnew, hs⟩)
    · exact identity?_str s
    · exact identity?_of_name hname hs
    · exact identity?_of_newType hnone hnew hs

/-! ## What is left -/

/-- Only the removal of a value leaves none. -/
theorem Json.eq_remove_of_prune {value : Json} {t : Template} (h : value.prune t = .ok none) :
    t = .remove := by
  cases t with
  | remove => rfl
  | names listed =>
    rw [prune] at h
    obtain ⟨_, -, hnone⟩ := map_eq_ok_iff.1 h
    cases hnone
  | nested entries =>
    cases value with
    | obj fields =>
      rw [prune] at h
      obtain ⟨_, -, hnone⟩ := map_eq_ok_iff.1 h
      cases hnone
    | null | bool _ | num _ | str _ | arr _ => cases h

theorem Pruned.isSome_iff {template : Option Template} {value kept : Option Json}
    (h : Pruned template value kept) : kept.isSome ↔ value.isSome ∧ template ≠ some .remove := by
  cases value with
  | none =>
    rw [pruned_absent_iff.1 h]
    simp
  | some value =>
    cases template with
    | none =>
      rw [pruned_unsaid_iff.1 h]
      simp
    | some t =>
      rw [Option.isSome_some, and_iff_right rfl, ← not_iff_not, not_ne_iff,
        Option.not_isSome_iff_eq_none]
      constructor
      · rintro rfl
        rw [Json.eq_remove_of_prune h]
      · intro hremove
        rwa [hremove, pruned_remove_iff] at h

namespace Json

variable {value : Json} {t : Template}

/-- **Pruning removes exactly what the template names.** It fails if and only if the template does not
fit somewhere, and then at the first such place. Otherwise a path is left if and only if the template
takes neither its value nor one on the way. Where the template lists names of an array, the items that
go by none of them are left, in their order; an object stays one, with its keys in order; and where
the template has no node, the value is the one that was there. -/
theorem prune_exact (hvalue : value.canonical = value) (ht : t ≠ .remove) :
    ((∃ e, value.prune t = .error e) ↔ ∃ e, t.Misfits value e) ∧
    (∀ e, value.prune t = .error e →
      t.Misfits value e ∧ ∀ other, t.Misfits value other → other = e ∨ e.path < other.path) ∧
    ((∀ e, ¬ t.Misfits value e) → ∃ left, value.prune t = .ok (some left) ∧
      (∀ path, (left.at? path).isSome ↔ (value.at? path).isSome ∧
        ∀ taken, taken <+: path → ¬ t.Takes taken) ∧
      (∀ path listed items, t.node? path = some (.names listed) →
        value.at? path = some (.arr items) →
          left.at? path = some (.arr (items.filter fun item =>
            item.identity?.all fun name => name ∉ listed))) ∧
      (∀ path fields inner, value.at? path = some (.obj fields) → left.at? path = some inner →
        ∃ rest, inner = .obj rest ∧ Entries.Ascending rest) ∧
      ∀ path inner, t.node? path = none → left.at? path = some inner →
        value.at? path = some inner) := by
  have hreports := reports_prune value t hvalue
  cases hprune : value.prune t with
  | error e =>
    rw [hprune] at hreports
    refine ⟨⟨fun _ => ⟨e, hreports.misfit⟩, fun _ => ⟨e, rfl⟩⟩, ?_, ?_⟩
    · rintro _ ⟨⟩
      exact ⟨hreports.misfit, hreports.first⟩
    · exact fun hfits => absurd hreports.misfit (hfits e)
  | ok kept =>
    rw [hprune] at hreports
    refine ⟨⟨nofun, fun ⟨e, he⟩ => absurd he (hreports e)⟩, nofun, fun _ => ?_⟩
    cases kept with
    | none => exact absurd (eq_remove_of_prune hprune) ht
    | some left =>
      have hpruned : Pruned (some t) (some value) (some left) := hprune
      have hat : ∀ path, Pruned (t.along? path) (value.at? path) (left.at? path) := fun path =>
        pruned_at? path hvalue hpruned
      refine ⟨left, rfl, fun path => ?_, fun path listed items hnode hitems => ?_,
        fun path fields inner hfields hinner => ?_, fun path inner hnode hinner => ?_⟩
      · rw [(hat path).isSome_iff, Ne, Template.along?_eq_remove_iff]
        simp only [not_exists, not_and]
      · have hleft := hat path
        rw [Template.along?_of_node? hnode, hitems] at hleft
        rw [← Except.ok.inj hleft]
        congr 3
        funext item
        cases item.identity? <;> simp
      · have hleft := hat path
        rw [hfields, hinner] at hleft
        have hasc := (canonical_fields (canonical_of_at? hvalue hfields)).1
        obtain ⟨rest, hrest, hobj, -⟩ := Pruned.field hasc hleft
        exact ⟨rest, by simpa using hobj, hrest⟩
      · have hleft := hat path
        have hsaid : t.along? path = none := by
          cases hsaid : t.along? path with
          | none => rfl
          | some said =>
            have hremove : t.along? path ≠ some .remove :=
              ((hat path).isSome_iff.1 (by rw [hinner]; rfl)).2
            rw [hsaid] at hremove
            rw [Template.node?_of_along? hsaid (by simpa using hremove)] at hnode
            cases hnode
        rw [hsaid, pruned_unsaid_iff] at hleft
        rw [← hleft, hinner]

/-- A crew with a name and a new type. -/
def aukCrew : Json := .obj [("name", .str "Auk"), ("new-type", .str "Tern")]

/-- A value with an array of items, a collection and a text. The crews go by all that an item can go
by: a text, a name before a new type, a name alone, and a new type behind an empty name. -/
def harborJson : Json :=
  .obj [("crews", .arr [.str "Gull", aukCrew, .obj [("name", .str "Skua")],
      .obj [("name", .str ""), ("new-type", .str "Tern")]]),
    ("piers", .obj [("east", .null), ("west", .obj [("depth", .num (.int 4))])]),
    ("town", .str "Reef")]

/-- A template for it, with a list of names at two of its places and a template of some kind at the
third. -/
def harborTemplate (town : Template) : Template :=
  .nested [("crews", .names ["Skua", "Tern"]), ("piers", .names ["east"]), ("town", town)]

/-- A template that fits removes what it names, the crew that goes by its name and the one that goes
by its new type; one that goes into the text fails there. -/
theorem harborJson_prune :
    harborJson.canonical = harborJson ∧ harborTemplate .remove ≠ .remove ∧
      harborTemplate (.nested []) ≠ .remove ∧
      harborJson.prune (harborTemplate .remove) =
        .ok (some (.obj [("crews", .arr [.str "Gull", aukCrew]),
          ("piers", .obj [("west", .obj [("depth", .num (.int 4))])])])) ∧
      (harborTemplate (.nested [])).Misfits harborJson ⟨["town"], .object⟩ ∧
      ∃ e, harborJson.prune (harborTemplate (.nested [])) = .error e := by
  have hcanonical : harborJson.canonical = harborJson := by decide +kernel
  have hmisfit : (harborTemplate (.nested [])).Misfits harborJson ⟨["town"], .object⟩ :=
    ⟨.nested [], .str "Reef", rfl, rfl, rfl⟩
  refine ⟨hcanonical, nofun, nofun, by decide +kernel, hmisfit, ?_⟩
  exact (prune_exact (t := harborTemplate (.nested [])) hcanonical nofun).1.2 ⟨_, hmisfit⟩

end Json

end IdlDecls
