import IdlDecls.Proofs.Removal.Exact

/-!
# Which values are removal templates

A value is a removal template if every value in it that a path of keys leads to is null, an object or a
list of texts (`Json.FitsTemplate`). The template then has a node for each of these values, of the same
kind and with the same names or keys (`Template.Stands`), so it can be written back as the value that it
was read of (`Template.ofJson_eq_ok_iff`). Where a value is no template, reading stops at the first
offender that a walk through the fields comes to, each field with all that is in it
(`Template.ofJson_exact`).
-/

namespace IdlDecls

/-! ## Single values -/

namespace Json

/-- Whether a value is a text. -/
def isText : Json → Bool
  | .str _ => true
  | _ => false

/-- A value that may stand in a template, whatever is in its fields. -/
def FitsTemplate : Json → Prop
  | .null | .obj _ => True
  | .arr items => ∀ item ∈ items, ∃ name, item = .str name
  | _ => False

/-- What keeps a value out of a template; in a list it is the first item that is no text. -/
def templateFault? : Json → Option Template.Fault
  | .null | .obj _ => none
  | .arr items => (items.find? fun item => !item.isText).map .notName
  | found => some (.notTemplate found)

theorem isText_iff {value : Json} : value.isText = true ↔ ∃ name, value = .str name := by
  cases value <;> simp [isText]

theorem templateFault?_eq_none_iff {value : Json} :
    value.templateFault? = none ↔ value.FitsTemplate := by
  cases value with
  | null | obj _ => simp [templateFault?, FitsTemplate]
  | arr items => simp [templateFault?, FitsTemplate, isText_iff]
  | bool _ | num _ | str _ => simp [templateFault?, FitsTemplate]

/-- A list of texts is the list of some names. -/
theorem exists_names_iff {items : List Json} :
    (∃ names : List String, items = names.map .str) ↔ (Json.arr items).FitsTemplate := by
  constructor
  · rintro ⟨names, rfl⟩ item hitem
    obtain ⟨name, -, rfl⟩ := List.mem_map.1 hitem
    exact ⟨name, rfl⟩
  · intro h
    induction items with
    | nil => exact ⟨[], rfl⟩
    | cons item rest ih =>
      obtain ⟨name, rfl⟩ := h item (List.mem_cons_self ..)
      obtain ⟨names, rfl⟩ := ih fun other hother => h other (List.mem_cons_of_mem _ hother)
      exact ⟨name :: names, rfl⟩

end Json

namespace Template

/-- A node of a template stands for a value: they are of one kind, and they have the same names or the
same keys in the same order. -/
inductive Stands : Json → Template → Prop where
  | remove : Stands .null .remove
  | names (listed : List String) : Stands (.arr (listed.map .str)) (.names listed)
  | nested {fields : List (String × Json)} {entries : List (String × Template)} :
      entries.map (·.1) = fields.map (·.1) → Stands (.obj fields) (.nested entries)

theorem Stands.fits {value : Json} {t : Template} (h : Stands value t) : value.FitsTemplate := by
  cases h with
  | remove | nested => trivial
  | names listed => exact Json.exists_names_iff.1 ⟨listed, rfl⟩

/-! ## Writing -/

mutual

/-- The value that a template is written as. -/
def toJson : Template → Json
  | .remove => .null
  | .names listed => .arr (listed.map .str)
  | .nested entries => .obj (fieldsToJson entries)

/-- The fields that the entries of a template are written as. -/
def fieldsToJson : List (String × Template) → List (String × Json)
  | [] => []
  | (key, t) :: rest => (key, t.toJson) :: fieldsToJson rest

end

theorem fieldsToJson_eq_map : ∀ entries : List (String × Template),
    fieldsToJson entries = entries.map fun e => (e.1, e.2.toJson)
  | [] => rfl
  | (key, t) :: rest => by rw [fieldsToJson, fieldsToJson_eq_map rest, List.map_cons]

theorem stands_toJson (t : Template) : Stands t.toJson t := by
  cases t with
  | remove => exact .remove
  | names listed => exact .names listed
  | nested entries =>
    rw [toJson, fieldsToJson_eq_map]
    exact .nested (by rw [List.map_map]; rfl)

/-- A path leads in a written template to what its node is written as. -/
theorem at?_toJson : ∀ (path : List String) (t : Template),
    t.toJson.at? path = (t.node? path).map toJson
  | [], t => rfl
  | key :: path, t => by
    cases t with
    | remove | names _ => rfl
    | nested entries =>
      rw [toJson, Json.at?, node?, fieldsToJson_eq_map,
        Entries.get?_map (fun _ t => toJson t) entries key]
      cases Entries.get? entries key with
      | none => rfl
      | some t => exact at?_toJson path t

/-! ## Reading what is written -/

theorem namesOfJson_map_str : ∀ listed : List String, namesOfJson (listed.map .str) = .ok listed
  | [] => rfl
  | name :: rest => by rw [List.map_cons, namesOfJson, namesOfJson_map_str rest]; rfl

theorem namesOfJson_eq_ok_iff : ∀ {items : List Json} {names : List String},
    namesOfJson items = .ok names ↔ items = names.map .str := by
  intro items names
  constructor
  · intro h
    induction items generalizing names with
    | nil => cases h; rfl
    | cons item rest ih =>
      cases item with
      | str name =>
        obtain ⟨others, hothers, rfl⟩ := map_eq_ok_iff.1 h
        rw [ih hothers, List.map_cons]
      | null | bool _ | num _ | arr _ | obj _ => cases h
  · rintro rfl
    exact namesOfJson_map_str names

/-- A list that is none of names is refused for its first item that is no text. -/
theorem namesOfJson_eq_error {items : List Json} {e : Invalid} (h : namesOfJson items = .error e) :
    e.path = [] ∧ (Json.arr items).templateFault? = some e.fault := by
  induction items with
  | nil => cases h
  | cons item rest ih =>
    cases item with
    | str name =>
      cases hrest : namesOfJson rest with
      | error e' =>
        rw [namesOfJson, hrest] at h
        cases h
        exact ih hrest
      | ok names =>
        rw [namesOfJson, hrest] at h
        cases h
    | null | bool _ | num _ | arr _ | obj _ =>
      cases h
      exact ⟨rfl, rfl⟩

mutual

theorem ofJson_toJson : ∀ t : Template, ofJson t.toJson = .ok t
  | .remove => rfl
  | .names listed => by rw [toJson, ofJson, namesOfJson_map_str]; rfl
  | .nested entries => by rw [toJson, ofJson, entriesOfJson_fieldsToJson entries]; rfl

theorem entriesOfJson_fieldsToJson : ∀ entries : List (String × Template),
    entriesOfJson (fieldsToJson entries) = .ok entries
  | [] => rfl
  | (key, t) :: rest => by
    rw [fieldsToJson, entriesOfJson, ofJson_toJson t, entriesOfJson_fieldsToJson rest]
    rfl

end

mutual

theorem eq_toJson_of_ofJson : ∀ {value : Json} {t : Template}, ofJson value = .ok t → value = t.toJson
  | .null, t, h => by cases h; rfl
  | .arr items, t, h => by
    obtain ⟨names, hnames, rfl⟩ := map_eq_ok_iff.1 h
    rw [namesOfJson_eq_ok_iff.1 hnames, toJson]
  | .obj fields, t, h => by
    obtain ⟨entries, hentries, rfl⟩ := map_eq_ok_iff.1 h
    rw [eq_fieldsToJson_of_entriesOfJson hentries, toJson]
  | .bool _, _, h | .num _, _, h | .str _, _, h => by cases h

theorem eq_fieldsToJson_of_entriesOfJson : ∀ {fields : List (String × Json)}
    {entries : List (String × Template)}, entriesOfJson fields = .ok entries →
      fields = fieldsToJson entries
  | [], entries, h => by cases h; rfl
  | (key, value) :: rest, entries, h => by
    rw [entriesOfJson] at h
    cases hvalue : ofJson value with
    | error e => rw [hvalue] at h; cases h
    | ok t =>
      rw [hvalue] at h
      obtain ⟨others, hothers, rfl⟩ := map_eq_ok_iff.1 h
      rw [eq_toJson_of_ofJson hvalue, eq_fieldsToJson_of_entriesOfJson hothers, fieldsToJson]

end

/-- **A template is read of the value that it is written as, and of no other.** -/
theorem ofJson_eq_ok_iff {value : Json} {t : Template} : ofJson value = .ok t ↔ value = t.toJson := by
  refine ⟨eq_toJson_of_ofJson, ?_⟩
  rintro rfl
  exact ofJson_toJson t

/-! ## The first offender -/

/-- A path of keys leads to a value that may not stand in a template. -/
def Offends (value : Json) (e : Invalid) : Prop :=
  ∃ inner, value.at? e.path = some inner ∧ inner.templateFault? = some e.fault

/-- An offender in one of the fields of an object. -/
def FieldOffends (fields : List (String × Json)) (e : Invalid) : Prop :=
  ∃ key path value, e.path = key :: path ∧ Entries.get? fields key = some value ∧
    Offends value ⟨path, e.fault⟩

/-- An offender that comes before all others in the order in which an object's fields are gone through,
each with all that is in it. -/
structure FirstOffender (offends : Invalid → Prop) (e : Invalid) : Prop where
  offender : offends e
  first : ∀ other, offends other → other = e ∨ e.path < other.path

theorem offends_obj_iff {fields : List (String × Json)} {e : Invalid} :
    Offends (.obj fields) e ↔ FieldOffends fields e := by
  obtain ⟨path, fault⟩ := e
  constructor
  · rintro ⟨inner, hinner, hfault⟩
    cases path with
    | nil => cases hinner; cases hfault
    | cons key path =>
      obtain ⟨value, hvalue, hinner⟩ := Option.bind_eq_some_iff.1 hinner
      exact ⟨key, path, value, rfl, hvalue, inner, hinner, hfault⟩
  · rintro ⟨key, path, value, rfl, hvalue, inner, hinner, hfault⟩
    exact ⟨inner, Option.bind_eq_some_iff.2 ⟨value, hvalue, hinner⟩, hfault⟩

/-- A value without fields is the only one that can offend in it. -/
theorem firstOffender_leaf {value : Json} (hvalue : ∀ fields, value ≠ .obj fields) {e : Invalid}
    (hpath : e.path = []) (hfault : value.templateFault? = some e.fault) :
    FirstOffender (Offends value) e := by
  obtain ⟨path, fault⟩ := e
  obtain rfl : path = [] := hpath
  refine ⟨⟨value, rfl, hfault⟩, ?_⟩
  rintro ⟨path, fault'⟩ ⟨inner, hinner, hfault'⟩
  cases path with
  | nil =>
    cases hinner
    have hsame : fault = fault' := Option.some.inj (hfault.symm.trans hfault')
    rw [hsame]
    exact Or.inl rfl
  | cons key path =>
    cases value with
    | obj fields => exact absurd rfl (hvalue fields)
    | null | bool _ | num _ | str _ | arr _ => cases hinner

theorem not_offends_toJson (t : Template) (e : Invalid) : ¬ Offends t.toJson e := by
  rintro ⟨inner, hinner, hfault⟩
  rw [at?_toJson] at hinner
  obtain ⟨node, -, rfl⟩ := Option.map_eq_some_iff.1 hinner
  rw [Json.templateFault?_eq_none_iff.2 (stands_toJson node).fits] at hfault
  cases hfault

section Fields

variable {key : String} {value : Json} {rest : List (String × Json)}

/-- An offender in some fields is one in the first or one in the others. -/
theorem fieldOffends_cons_iff (hasc : Entries.Ascending ((key, value) :: rest)) {e : Invalid} :
    FieldOffends ((key, value) :: rest) e ↔
      (∃ path, e.path = key :: path ∧ Offends value ⟨path, e.fault⟩) ∨ FieldOffends rest e := by
  constructor
  · rintro ⟨k, path, v, hpath, hv, hoffends⟩
    rcases (Entries.get?_cons_eq_some_iff hasc).1 hv with ⟨rfl, rfl⟩ | hv
    · exact Or.inl ⟨path, hpath, hoffends⟩
    · exact Or.inr ⟨k, path, v, hpath, hv, hoffends⟩
  · rintro (⟨path, hpath, hoffends⟩ | ⟨k, path, v, hpath, hv, hoffends⟩)
    · exact ⟨key, path, value, hpath,
        (Entries.get?_cons_eq_some_iff hasc).2 (Or.inl ⟨rfl, rfl⟩), hoffends⟩
    · exact ⟨k, path, v, hpath, (Entries.get?_cons_eq_some_iff hasc).2 (Or.inr hv), hoffends⟩

/-- The first offender of the first field is the first of all. -/
theorem FirstOffender.within (hasc : Entries.Ascending ((key, value) :: rest)) {e : Invalid}
    (h : FirstOffender (Offends value) e) :
    FirstOffender (FieldOffends ((key, value) :: rest)) ⟨key :: e.path, e.fault⟩ := by
  refine ⟨(fieldOffends_cons_iff hasc).2 (Or.inl ⟨e.path, rfl, h.offender⟩), fun other hother => ?_⟩
  rcases (fieldOffends_cons_iff hasc).1 hother with ⟨path, hpath, hoffends⟩ | hrest
  · obtain ⟨path', fault⟩ := other
    cases hpath
    rcases h.first _ hoffends with rfl | hlt
    · exact Or.inl rfl
    · exact Or.inr (List.cons_lt_cons_iff.2 (Or.inr ⟨rfl, hlt⟩))
  · obtain ⟨k, path, v, hpath, hv, -⟩ := hrest
    have hlt : key < k := (List.pairwise_cons.1 hasc).1 _ (Entries.mem_of_get? hv)
    rw [hpath]
    exact Or.inr (List.cons_lt_cons_iff.2 (Or.inl hlt))

/-- Where the first field is a template, the first offender is that of the others. -/
theorem FirstOffender.behind (hasc : Entries.Ascending ((key, value) :: rest)) {t : Template}
    (ht : value = t.toJson) {e : Invalid} (h : FirstOffender (FieldOffends rest) e) :
    FirstOffender (FieldOffends ((key, value) :: rest)) e := by
  refine ⟨(fieldOffends_cons_iff hasc).2 (Or.inr h.offender), fun other hother => ?_⟩
  rcases (fieldOffends_cons_iff hasc).1 hother with ⟨path, -, hoffends⟩ | hrest
  · exact absurd (ht ▸ hoffends) (not_offends_toJson t _)
  · exact h.first other hrest

end Fields

mutual

/-- **Reading fails at the first offender.** -/
theorem firstOffender_of_ofJson : ∀ {value : Json} {e : Invalid}, value.canonical = value →
    ofJson value = .error e → FirstOffender (Offends value) e
  | .null, e, _, h => by cases h
  | .bool _, e, _, h | .num _, e, _, h | .str _, e, _, h => by
    cases h
    exact firstOffender_leaf (by nofun) rfl rfl
  | .arr items, e, _, h => by
    cases hnames : namesOfJson items with
    | ok names => rw [ofJson, hnames] at h; cases h
    | error e' =>
      rw [ofJson, hnames] at h
      cases h
      obtain ⟨hpath, hfault⟩ := namesOfJson_eq_error hnames
      exact firstOffender_leaf (by nofun) hpath hfault
  | .obj fields, e, hvalue, h => by
    obtain ⟨hasc, hfields⟩ := Json.canonical_fields hvalue
    cases hentries : entriesOfJson fields with
    | ok entries => rw [ofJson, hentries] at h; cases h
    | error e' =>
      rw [ofJson, hentries] at h
      cases h
      have hfirst := firstOffender_of_entriesOfJson hasc hfields hentries
      exact ⟨offends_obj_iff.2 hfirst.offender, fun other hother =>
        hfirst.first other (offends_obj_iff.1 hother)⟩

theorem firstOffender_of_entriesOfJson : ∀ {fields : List (String × Json)} {e : Invalid},
    Entries.Ascending fields → (∀ field ∈ fields, field.2.canonical = field.2) →
      entriesOfJson fields = .error e → FirstOffender (FieldOffends fields) e
  | [], e, _, _, h => by cases h
  | (key, value) :: rest, e, hasc, hfields, h => by
    rw [entriesOfJson] at h
    cases hvalue : ofJson value with
    | error e' =>
      rw [hvalue] at h
      cases h
      exact (firstOffender_of_ofJson (hfields _ (List.mem_cons_self ..)) hvalue).within hasc
    | ok t =>
      rw [hvalue] at h
      cases hrest : entriesOfJson rest with
      | ok entries => rw [hrest] at h; cases h
      | error e' =>
        rw [hrest] at h
        cases h
        have hfirst := firstOffender_of_entriesOfJson (List.pairwise_cons.1 hasc).2
          (fun field hfield => hfields field (List.mem_cons_of_mem _ hfield)) hrest
        exact hfirst.behind hasc (eq_toJson_of_ofJson hvalue)

end

/-! ## Templates and other values -/

/-- **Which values are templates.** A value is read as a template exactly if each value in it that a path
of keys leads to is null, an object or a list of texts. The template has the same paths, and at the end of
each a node that stands for the value there, and it is read of this value only. Any other value is refused
with a message that names the path to the first value that may not stand in a template, and what it has
against it. -/
theorem ofJson_exact {value : Json} (hvalue : value.canonical = value) :
    ((∃ t, ofJson value = .ok t) ↔
      ∀ path inner, value.at? path = some inner → inner.FitsTemplate) ∧
    (∀ t, ofJson value = .ok t →
      (∀ path, Option.Rel Stands (value.at? path) (t.node? path)) ∧
        ∀ other, ofJson other = .ok t → other = value) ∧
    ∀ e, ofJson value = .error e →
      e.message =
        "Invalid removal template at " ++ ".".intercalate e.path ++ ": " ++ e.fault.reason ∧
      (∃ inner, value.at? e.path = some inner ∧ inner.templateFault? = some e.fault) ∧
      ∀ path inner, value.at? path = some inner → ¬ inner.FitsTemplate →
        path = e.path ∨ e.path < path := by
  have hnode : ∀ t, ofJson value = .ok t → ∀ path,
      Option.Rel Stands (value.at? path) (t.node? path) := by
    intro t ht path
    rw [ofJson_eq_ok_iff.1 ht, at?_toJson]
    cases t.node? path with
    | none => exact .none
    | some node => exact .some (stands_toJson node)
  refine ⟨⟨?_, fun hfits => ?_⟩, fun t ht => ⟨hnode t ht, fun other hother => ?_⟩,
    fun e he => ⟨rfl, ?_⟩⟩
  · rintro ⟨t, ht⟩ path inner hinner
    have hstands := hnode t ht path
    rw [hinner] at hstands
    generalize t.node? path = node at hstands
    cases hstands with
    | some h => exact h.fits
  · cases hread : ofJson value with
    | ok t => exact ⟨t, rfl⟩
    | error e =>
      obtain ⟨inner, hinner, hfault⟩ := (firstOffender_of_ofJson hvalue hread).offender
      rw [Json.templateFault?_eq_none_iff.2 (hfits e.path inner hinner)] at hfault
      cases hfault
  · rw [ofJson_eq_ok_iff.1 ht, ofJson_eq_ok_iff.1 hother]
  · have hfirst := firstOffender_of_ofJson hvalue he
    refine ⟨hfirst.offender, fun path inner hinner hunfit => ?_⟩
    cases hfault : inner.templateFault? with
    | none => exact absurd (Json.templateFault?_eq_none_iff.1 hfault) hunfit
    | some fault =>
      rcases hfirst.first ⟨path, fault⟩ ⟨inner, hinner, hfault⟩ with rfl | hlt
      · exact Or.inl rfl
      · exact Or.inr hlt

/-- A value that lists an interface, with what is given for mixins and for typedefs. -/
def moorJson (mixins typedefs : Json) : Json :=
  .obj [("interfaces", .obj [("interface", .arr [.str "Moor"])]), ("mixins", mixins),
    ("typedefs", typedefs)]

/-- A list that holds a number beside a name. -/
def moorMixins : Json :=
  .obj [("mixin", .arr [.str "Heath", .num (.int 7)])]

/-- With nulls it is a template. With a number among the names of the mixins it is refused for the number,
before the truth value that comes behind it. -/
theorem moorJson_read :
    (moorJson .null .null).canonical = moorJson .null .null ∧
      (moorJson moorMixins (.bool true)).canonical = moorJson moorMixins (.bool true) ∧
      (∃ t, ofJson (moorJson .null .null) = .ok t ∧
        Option.Rel Stands ((moorJson .null .null).at? ["interfaces", "interface"])
          (t.node? ["interfaces", "interface"]) ∧
        ∀ other, ofJson other = .ok t → other = moorJson .null .null) ∧
      ∃ e, ofJson (moorJson moorMixins (.bool true)) = .error e ∧
        e.message = "Invalid removal template at mixins.mixin: expected a name, found 7" ∧
        (["typedefs"] = e.path ∨ e.path < ["typedefs"]) := by
  have hplain : (moorJson .null .null).canonical = moorJson .null .null := by decide +kernel
  have hmixed : (moorJson moorMixins (.bool true)).canonical = moorJson moorMixins (.bool true) := by
    decide +kernel
  obtain ⟨-, haccepted, -⟩ := ofJson_exact hplain
  obtain ⟨-, -, hrefused⟩ := ofJson_exact hmixed
  have hread : ofJson (moorJson .null .null) = .ok (.nested
      [("interfaces", .nested [("interface", .names ["Moor"])]), ("mixins", .remove),
        ("typedefs", .remove)]) := rfl
  have herror : ofJson (moorJson moorMixins (.bool true)) =
      .error ⟨["mixins", "mixin"], .notName (.num (.int 7))⟩ := rfl
  obtain ⟨hstands, honly⟩ := haccepted _ hread
  obtain ⟨-, -, hfirst⟩ := hrefused _ herror
  refine ⟨hplain, hmixed, ⟨_, hread, hstands _, honly⟩, _, herror, by decide +kernel, ?_⟩
  exact hfirst ["typedefs"] (.bool true) rfl (by simp [Json.FitsTemplate])

end Template

end IdlDecls
