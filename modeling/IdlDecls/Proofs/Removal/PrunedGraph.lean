import IdlDecls.Integration.Integrate
import IdlDecls.Proofs.Removal.Pruned

/-!
# Pruning entry by entry

A graph is pruned by writing it out, pruning the value and reading that back. For the interfaces and
mixins of a graph this comes down to the same three steps for each entry on its own
(`Graph.interface?_prune`, `Graph.mixin?_prune`): what is left of an entry depends on the template
and on the entry, not on anything beside it.
-/

namespace IdlDecls

/-! ## Extra fields beside the fields -/

/-- No extra field stands under one of the keys. -/
def Extra.Beside (keys : List String) (extra : Extra) : Prop :=
  ∀ key ∈ keys, extra.get? key = none

instance (keys : List String) (extra : Extra) : Decidable (extra.Beside keys) :=
  inferInstanceAs (Decidable (∀ key ∈ keys, extra.get? key = none))

/-- What is left of an object beside the known keys stands beside them. -/
theorem Extra.beside_rest (keys : List String) (fields : List (String × Json)) :
    (Read.rest keys fields).Beside keys := by
  intro key hkey
  rw [Read.rest, Keyed.get?_ofList, Entries.get?_eq_none_iff]
  intro e he heq
  rw [List.mem_reverse, List.mem_filter] at he
  simp [heq, hkey] at he

/-- The keys of a graph's fields in its written form. -/
def Graph.fieldKeys : List String :=
  ["callback-functions", "callback-interfaces", "dictionaries", "enums", "interfaces", "mixins",
    "typedefs", "namespaces"]

/-- No extra field stands under the key of a field, where it would take the field's place in the
written form. Reading never puts one there (`Graph.separateExtra_of_ofJson`,
`Fragment.separateExtra_of_ofJson`). -/
def Graph.SeparateExtra (g : Graph) : Prop :=
  g.extra.Beside Graph.fieldKeys

instance (g : Graph) : Decidable g.SeparateExtra :=
  inferInstanceAs (Decidable (g.extra.Beside Graph.fieldKeys))

/-! ## Writing -/

theorem get?_given {α : Type} (field : String) (write : α → Json) (value : Option α)
    (key : String) : Entries.get? (Write.given field write value).reverse key =
      if field = key then value.map write else none := by
  cases value with
  | none => simp [Write.given, Entries.get?]
  | some value => simp [Write.given, Entries.get?]

/-- The written form of a graph holds its interfaces and its mixins under their keys. -/
theorem Graph.toValue_fields {g : Graph} (hg : g.SeparateExtra) :
    ∃ fields, g.toValue = .obj fields ∧ Entries.Ascending fields ∧
      Entries.get? fields "interfaces" =
        g.interfaces.map (Write.collection .ascending "interface" (Interface.toJson .ascending)) ∧
      Entries.get? fields "mixins" =
        g.mixins.map (Write.collection .ascending "mixin" (Interface.toJson .ascending)) := by
  refine ⟨_, rfl, Entries.ascending_sorted _, ?_, ?_⟩
  · have hextra : Entries.get? g.extra.entries.reverse "interfaces" = none := by
      rw [Entries.get?_reverse_of_ascending g.extra.ascending]
      exact hg "interfaces" (by decide)
    rw [Entries.get?_sorted]
    simp [List.reverse_append, Entries.get?_append, get?_given, hextra]
  · have hextra : Entries.get? g.extra.entries.reverse "mixins" = none := by
      rw [Entries.get?_reverse_of_ascending g.extra.ascending]
      exact hg "mixins" (by decide)
    rw [Entries.get?_sorted]
    simp [List.reverse_append, Entries.get?_append, get?_given, hextra]

/-! ## Reading -/

/-- What reading makes of a value that may be absent. -/
def ReadAs {α : Type} (read : Json → Reading α) : Option Json → Option α → Prop
  | none, result => result = none
  | some j, result => ∃ value, read j = .ok value ∧ result = some value

section Reading

variable {α : Type} {read : Json → Reading α}

theorem ReadAs.unique {j : Option Json} {result result' : Option α} (h : ReadAs read j result)
    (h' : ReadAs read j result') : result = result' := by
  cases j with
  | none => exact Eq.trans h (Eq.symm h')
  | some j =>
    obtain ⟨value, hv, rfl⟩ := h
    obtain ⟨value', hv', rfl⟩ := h'
    rw [Except.ok.inj (hv.symm.trans hv')]

theorem ReadAs.map {β : Type} {j : Option Json} {result : Option α} (f : α → β)
    (h : ReadAs read j result) : ReadAs (fun j => f <$> read j) j (result.map f) := by
  cases j with
  | none => cases h; rfl
  | some j =>
    obtain ⟨value, hv, rfl⟩ := h
    exact ⟨f value, map_eq_ok_iff.2 ⟨value, hv, rfl⟩, rfl⟩

/-- Entries are read one by one, under their keys. -/
theorem readAs_of_forall₂ {fields : List (String × Json)} {entries : Entries α}
    (h : List.Forall₂ (fun field e => (field.1, ·) <$> read field.2 = .ok e) fields entries) :
    entries.map (·.1) = fields.map (·.1) ∧
      ∀ key, ReadAs read (Entries.get? fields key) (Entries.get? entries key) := by
  induction h with
  | nil => exact ⟨rfl, fun _ => rfl⟩
  | @cons field e rest tail he _ ih =>
    obtain ⟨value, hvalue, rfl⟩ := map_eq_ok_iff.1 he
    refine ⟨by rw [List.map_cons, List.map_cons, ih.1], fun key => ?_⟩
    obtain ⟨k, j⟩ := field
    rw [Entries.get?, Entries.get?]
    by_cases hk : k = key
    · rw [if_pos hk, if_pos hk]
      exact ⟨value, hvalue, rfl⟩
    · rw [if_neg hk, if_neg hk]
      exact ih.2 key

theorem readAs_of_keyed {fields : List (String × Json)} {m : Keyed α}
    (hasc : Entries.Ascending fields) (h : Read.keyed read (.obj fields) = .ok m) (key : String) :
    ReadAs read (Entries.get? fields key) (m.get? key) := by
  obtain ⟨entries, hentries, rfl⟩ := map_eq_ok_iff.1 h
  obtain ⟨hkeys, hread⟩ := readAs_of_forall₂ (mapM_eq_ok_iff.1 hentries)
  have hasc' : Entries.Ascending entries := by
    have hmap : (fields.map (·.1)).Pairwise (· < ·) := List.pairwise_map.2 hasc
    rw [← hkeys] at hmap
    exact List.pairwise_map.1 hmap
  rw [Keyed.get?_ofList, Entries.get?_reverse_of_ascending hasc']
  exact hread key

end Reading

/-! ## Collections -/

/-- The entries in the written form of a collection, each part of which may be absent. -/
inductive HoldsEntries (key : String) : Option Json → List (String × Json) → Prop where
  | absent : HoldsEntries key none []
  | empty {fields : List (String × Json)} :
      Entries.get? fields key = none → HoldsEntries key (some (.obj fields)) []
  | entries {fields entries : List (String × Json)} :
      Entries.get? fields key = some (.obj entries) → HoldsEntries key (some (.obj fields)) entries

section Collections

variable {α : Type}

/-- **A written collection is pruned entry by entry.** -/
theorem pruned_collection {template : Option Template} {key : String} {write : α → Json}
    {c : Option (Keyed α)} {kept : Option Json}
    (h : Pruned template (c.map (Write.collection .ascending key write)) kept) :
    ∃ left, Entries.Ascending left ∧ HoldsEntries key kept left ∧
      ∀ name, Pruned ((template.bind (·.at? key)).bind (·.at? name)) ((lookup? c name).map write)
        (Entries.get? left name) := by
  cases c with
  | none =>
    cases pruned_absent_iff.1 h
    exact ⟨[], .nil, .absent, fun name => by simp [Entries.get?]⟩
  | some m =>
    have hobject : Write.collection .ascending key write m =
        .obj [(key, .obj (m.entries.map fun e => (e.1, write e.2)))] := rfl
    rw [Option.map_some, hobject] at h
    obtain ⟨fields, -, hkept, hfields⟩ := Pruned.field (List.pairwise_singleton _ _) h
    have hkey := hfields key
    simp only [Entries.get?, ↓reduceIte] at hkey
    obtain ⟨left, hleft, hheld, hnames⟩ := Pruned.field (m.ascending_entries_map write) hkey
    simp only [m.get?_entries_map write] at hnames
    refine ⟨left, hleft, ?_, hnames⟩
    rcases hkept with rfl | ⟨rfl, rfl⟩
    · rcases hheld with hheld | ⟨hheld, rfl⟩
      · exact .entries hheld
      · exact .empty hheld
    · rcases hheld with hheld | ⟨-, rfl⟩
      · cases hheld
      · exact .absent

/-- **A collection is read entry by entry.** -/
theorem readAs_of_collection {read : Json → Reading α} {fields : List (String × Json)}
    {field key : String} {c : Option (Keyed α)} {left : List (String × Json)}
    (h : Read.optional (Read.collection key read) fields field = .ok c)
    (hheld : HoldsEntries key (Entries.get? fields field) left)
    (hleft : Entries.Ascending left) (name : String) :
    ReadAs read (Entries.get? left name) (lookup? c name) := by
  rw [Read.optional] at h
  generalize Entries.get? fields field = value at h hheld
  cases hheld with
  | absent =>
    cases pure_eq_ok_iff.1 h
    rfl
  | empty hkey =>
    obtain ⟨m, hm, rfl⟩ := map_eq_ok_iff.1 h
    rw [Read.collection, Read.record, Read.orElse, hkey] at hm
    cases pure_eq_ok_iff.1 hm
    rfl
  | entries hkey =>
    obtain ⟨m, hm, rfl⟩ := map_eq_ok_iff.1 h
    rw [Read.collection, Read.record, Read.orElse, hkey] at hm
    exact readAs_of_keyed hleft hm name

end Collections

/-! ## Graphs -/

/-- What pruning leaves of the interface or mixin with a name: its written form is pruned by what the
template says of it and read again under its name. -/
def PrunedEntry (template : Template) (field key name : String) (old new : Option Interface) :
    Prop :=
  ∃ kept, Pruned (((template.at? field).bind (·.at? key)).bind (·.at? name))
      (old.map (Interface.toJson .ascending)) kept ∧
    ReadAs (fun j => Interface.fillNames name <$> Interface.ofJson j) kept new

theorem PrunedEntry.unique {template : Template} {field key name : String}
    {old new new' : Option Interface} (h : PrunedEntry template field key name old new)
    (h' : PrunedEntry template field key name old new') : new = new' := by
  obtain ⟨kept, hkept, hread⟩ := h
  obtain ⟨kept', hkept', hread'⟩ := h'
  cases hkept.unique hkept'
  exact hread.unique hread'

/-- What a pruned graph is read back from. -/
theorem Graph.prune_raw {g pruned : Graph} {template : Template}
    (h : g.prune template = .ok pruned) {fields : List (String × Json)}
    (hvalue : g.toValue = .obj fields) (hasc : Entries.Ascending fields) :
    ∃ (left : List (String × Json)) (raw : Graph),
      (∀ key, Pruned (template.at? key) (Entries.get? fields key) (Entries.get? left key)) ∧
      Graph.ofRawJson (.obj left) = .ok raw ∧ pruned = raw.fillNames := by
  rw [Graph.prune] at h
  obtain ⟨kept, hkept, h⟩ := bind_eq_ok_iff.1 h
  rw [mapError_eq_ok_iff, hvalue] at hkept
  have hpruned : Pruned (some template) (some (.obj fields)) kept := hkept
  obtain ⟨left, -, hleft, hfields⟩ := Pruned.field hasc hpruned
  have hobject : kept.getD (.obj []) = .obj left := by
    rcases hleft with rfl | ⟨rfl, rfl⟩ <;> rfl
  rw [hobject, mapError_eq_ok_iff] at h
  obtain ⟨raw, hraw, rfl⟩ := map_eq_ok_iff.1 h
  exact ⟨left, raw, hfields, hraw, rfl⟩

/-- The collections of interfaces and mixins of a pruned graph, and what they are read from. -/
theorem Graph.prune_fields {g pruned : Graph} {template : Template}
    (h : g.prune template = .ok pruned) {fields : List (String × Json)}
    (hvalue : g.toValue = .obj fields) (hasc : Entries.Ascending fields) :
    ∃ (left : List (String × Json)) (raw : Graph),
      (∀ key, Pruned (template.at? key) (Entries.get? fields key) (Entries.get? left key)) ∧
      Read.optional (Read.collection "interface" Interface.ofJson) left "interfaces" =
        .ok raw.interfaces ∧
      Read.optional (Read.collection "mixin" Interface.ofJson) left "mixins" = .ok raw.mixins ∧
      pruned = raw.fillNames := by
  obtain ⟨left, raw, hfields, hraw, rfl⟩ := Graph.prune_raw h hvalue hasc
  simp only [Graph.ofRawJson, bind_eq_ok_iff, pure_eq_ok_iff] at hraw
  obtain ⟨_, hleft', _, -, _, -, _, -, _, -, interfaces, hinterfaces, mixins, hmixins, _, -, _, -,
    rfl⟩ := hraw
  cases pure_eq_ok_iff.1 hleft'
  exact ⟨left, _, hfields, hinterfaces, hmixins, rfl⟩

theorem prunedEntry_of_collection {template : Template} {field key : String}
    {fields left : List (String × Json)} {c raw : Option (Keyed Interface)}
    (hfield : Entries.get? fields field =
      c.map (Write.collection .ascending key (Interface.toJson .ascending)))
    (hleft : Pruned (template.at? field) (Entries.get? fields field) (Entries.get? left field))
    (hread : Read.optional (Read.collection key Interface.ofJson) left field = .ok raw)
    (name : String) :
    PrunedEntry template field key name (lookup? c name)
      (lookup? (raw.map (·.map Interface.fillNames)) name) := by
  rw [hfield] at hleft
  obtain ⟨entries, hentries, hheld, hnames⟩ := pruned_collection hleft
  have hraw := readAs_of_collection hread hheld hentries name
  rw [lookup?_map_entries]
  exact ⟨Entries.get? entries name, hnames name, hraw.map _⟩

/-- **An interface is pruned on its own.** -/
theorem Graph.interface?_prune {g pruned : Graph} {template : Template} (hg : g.SeparateExtra)
    (h : g.prune template = .ok pruned) (name : String) :
    PrunedEntry template "interfaces" "interface" name (g.interface? name)
      (pruned.interface? name) := by
  obtain ⟨fields, hvalue, hasc, hinterfaces, -⟩ := Graph.toValue_fields hg
  obtain ⟨left, raw, hleft, hread, -, rfl⟩ := Graph.prune_fields h hvalue hasc
  exact prunedEntry_of_collection hinterfaces (hleft "interfaces") hread name

/-- **A mixin is pruned on its own.** -/
theorem Graph.mixin?_prune {g pruned : Graph} {template : Template} (hg : g.SeparateExtra)
    (h : g.prune template = .ok pruned) (name : String) :
    PrunedEntry template "mixins" "mixin" name (g.mixin? name) (pruned.mixin? name) := by
  obtain ⟨fields, hvalue, hasc, -, hmixins⟩ := Graph.toValue_fields hg
  obtain ⟨left, raw, hleft, -, hread, rfl⟩ := Graph.prune_fields h hvalue hasc
  exact prunedEntry_of_collection hmixins (hleft "mixins") hread name

end IdlDecls
