import IdlDecls.Proofs.Declarations.Unnamed

/-!
# What a file holds

The files for windows and workers hold the declarations of every definition, kind after kind
(`Graph.written`), if each definition has a name, and are not written otherwise (`emit_eq_ok_iff`).
-/

namespace IdlDecls

/-- Every definition that is written has a name. -/
structure Graph.AllNamed (g : Graph) : Prop extends Graph.EntriesNamed g where
  namespaces : ∀ n ∈ g.namespaces.getD [], n.name ≠ ""
  typedefs : ∀ t ∈ g.typedefs.getD [], t.name ≠ ""

/-- The declarations of every definition, in their order. -/
def Graph.written (g : Graph) : List Declaration :=
  ((valuesOf g.dictionaries).flatMap fun d => [d.declaration]) ++
  ((valuesOf g.mixins).flatMap fun m => [m.declaration]) ++
  ((valuesOf g.interfaces).flatMap fun i => [i.declaration, i.objectDeclaration]) ++
  ((valuesOf g.callbackInterfaces).flatMap fun i => [i.declaration]) ++
  ((valuesOf g.callbackFunctions).flatMap fun f => [f.declaration]) ++
  ((g.namespaces.getD []).flatMap fun n => [n.namespaceDeclaration]) ++
  ((g.typedefs.getD []).flatMap fun t => [t.declaration]) ++
  ((valuesOf g.enums).flatMap fun e => [e.declaration])

theorem declarationsOf_named_eq_ok_iff {α : Type} {kind : Kind} {name : α → String}
    {declare : α → List Declaration} {parts : List α} {written : List Declaration} :
    declarationsOf (fun part => named kind (name part) (declare part)) parts = .ok written ↔
      (∀ part ∈ parts, name part ≠ "") ∧ parts.flatMap declare = written := by
  rw [declarationsOf_named]
  by_cases hunnamed : ∃ part ∈ parts, name part = ""
  · rw [if_pos hunnamed]
    obtain ⟨part, hpart, hname⟩ := hunnamed
    constructor
    · nofun
    · exact fun h => absurd hname (h.1 part hpart)
  · rw [if_neg hunnamed, Except.ok.injEq, iff_and_self]
    exact fun _ part hpart hname => hunnamed ⟨part, hpart, hname⟩

/-- **All or nothing**: the declarations of a graph are those of every definition, if all have names. -/
theorem Graph.declarations_eq_ok_iff {g : Graph} {declarations : List Declaration} :
    g.declarations = .ok declarations ↔ g.AllNamed ∧ g.written = declarations := by
  simp only [Graph.declarations, bind_eq_ok_iff, pure_eq_ok_iff, declarationsOf_named_eq_ok_iff]
  constructor
  · rintro ⟨_, ⟨hdictionaries, rfl⟩, _, ⟨hmixins, rfl⟩, _, ⟨hinterfaces, rfl⟩,
      _, ⟨hcallbackInterfaces, rfl⟩, _, ⟨hcallbackFunctions, rfl⟩, _, ⟨hnamespaces, rfl⟩,
      _, ⟨htypedefs, rfl⟩, _, ⟨henums, rfl⟩, h⟩
    exact ⟨⟨⟨hcallbackFunctions, hcallbackInterfaces, hdictionaries, henums, hinterfaces, hmixins⟩,
      hnamespaces, htypedefs⟩, h⟩
  · rintro ⟨h, hwritten⟩
    exact ⟨_, ⟨h.dictionaries, rfl⟩, _, ⟨h.mixins, rfl⟩, _, ⟨h.interfaces, rfl⟩,
      _, ⟨h.callbackInterfaces, rfl⟩, _, ⟨h.callbackFunctions, rfl⟩, _, ⟨h.namespaces, rfl⟩,
      _, ⟨h.typedefs, rfl⟩, _, ⟨h.enums, rfl⟩, hwritten⟩

/-- **The files for windows and workers.** -/
theorem emit_eq_ok_iff {g : Graph} {flavor : Flavor} (hflavor : flavor ≠ .iterators) {text : String} :
    emit g flavor = .ok text ↔
      g.AllNamed ∧ flavor.banner ++ String.join (g.written.map Declaration.text) = text := by
  rw [emit, Graph.declarationsFor_of_ne hflavor]
  change _ <$> g.declarations = _ ↔ _
  simp only [map_eq_ok_iff, Graph.declarations_eq_ok_iff]
  constructor
  · rintro ⟨_, ⟨hnamed, rfl⟩, htext⟩
    exact ⟨hnamed, htext⟩
  · rintro ⟨hnamed, htext⟩
    exact ⟨_, ⟨hnamed, rfl⟩, htext⟩

/-! ## The place of a kind -/

/-- The declarations of parts are written part by part. -/
theorem join_flatMap_text {α : Type} (declare : α → List Declaration) (parts : List α) :
    String.join ((parts.flatMap declare).map Declaration.text) =
      String.join (parts.map fun part => String.join ((declare part).map Declaration.text)) := by
  induction parts with
  | nil => rfl
  | cons part rest ih =>
    rw [List.flatMap_cons, List.map_append, String.join_append, ih, List.map_cons, String.join_cons]

/-- The declarations of the interfaces stand together, and without them nothing else changes. -/
theorem Graph.written_interfaces (g : Graph) : ∃ first last : List Declaration,
    g.written = first ++
      ((valuesOf g.interfaces).flatMap fun i => [i.declaration, i.objectDeclaration]) ++ last ∧
    { g with interfaces := none }.written = first ++ last :=
  ⟨((valuesOf g.dictionaries).flatMap fun d => [d.declaration]) ++
      ((valuesOf g.mixins).flatMap fun m => [m.declaration]),
    ((valuesOf g.callbackInterfaces).flatMap fun i => [i.declaration]) ++
      ((valuesOf g.callbackFunctions).flatMap fun f => [f.declaration]) ++
      ((g.namespaces.getD []).flatMap fun n => [n.namespaceDeclaration]) ++
      ((g.typedefs.getD []).flatMap fun t => [t.declaration]) ++
      ((valuesOf g.enums).flatMap fun e => [e.declaration]),
    by simp only [Graph.written, List.append_assoc],
    by simp only [Graph.written, List.append_assoc, valuesOf, List.flatMap_nil, List.nil_append]⟩

/-- The declarations of the namespaces stand together, and without them nothing else changes. -/
theorem Graph.written_namespaces (g : Graph) : ∃ first last : List Declaration,
    g.written = first ++
      ((g.namespaces.getD []).flatMap fun n => [n.namespaceDeclaration]) ++ last ∧
    { g with namespaces := none }.written = first ++ last :=
  ⟨((valuesOf g.dictionaries).flatMap fun d => [d.declaration]) ++
      ((valuesOf g.mixins).flatMap fun m => [m.declaration]) ++
      ((valuesOf g.interfaces).flatMap fun i => [i.declaration, i.objectDeclaration]) ++
      ((valuesOf g.callbackInterfaces).flatMap fun i => [i.declaration]) ++
      ((valuesOf g.callbackFunctions).flatMap fun f => [f.declaration]),
    ((g.typedefs.getD []).flatMap fun t => [t.declaration]) ++
      ((valuesOf g.enums).flatMap fun e => [e.declaration]),
    by simp only [Graph.written, List.append_assoc],
    by simp only [Graph.written, List.append_assoc, Option.getD_none, List.flatMap_nil,
      List.nil_append]⟩

/-- **A kind in a file.** If a part of the declarations is what some definitions are written as, and the
graph without these definitions is written as the rest, the file holds their texts where the file without
them has nothing. -/
theorem emit_part {g rest : Graph} {flavor : Flavor} (hflavor : flavor ≠ .iterators) {text : String}
    (h : emit g flavor = .ok text) {α : Type} {declare : α → List Declaration} {parts : List α}
    {first last : List Declaration} (hwritten : g.written = first ++ parts.flatMap declare ++ last)
    (hrest : rest.written = first ++ last) (hnamed : g.AllNamed → rest.AllNamed) :
    ∃ before after : String, emit rest flavor = .ok (before ++ after) ∧
      text = before ++
        String.join (parts.map fun part => String.join ((declare part).map Declaration.text)) ++
        after := by
  obtain ⟨hall, rfl⟩ := (emit_eq_ok_iff hflavor).1 h
  refine ⟨flavor.banner ++ String.join (first.map Declaration.text),
    String.join (last.map Declaration.text), (emit_eq_ok_iff hflavor).2 ⟨hnamed hall, ?_⟩, ?_⟩
  · rw [hrest, List.map_append, String.join_append, String.append_assoc]
  · rw [hwritten, List.map_append, List.map_append, String.join_append, String.join_append,
      join_flatMap_text]
    simp only [String.append_assoc]

end IdlDecls
