import IdlDecls.Proofs.Merge.Overridden
import IdlDecls.Proofs.Removal.Marks

/-!
# Removals keep names apart

From a list a template takes whole items or the list as a whole, and what is left of it is read back
item by item. So the names of a pruned list are some of those that were there, in their order
(`Graph.names_typedefs_prune`, `Graph.names_namespaces_prune`), and a name that did not repeat does
not repeat afterwards. That the extra fields of an item stand beside its name is needed here: under
the key of the name they would be read back in its place.
-/

namespace IdlDecls

open Read

/-! ## Lists -/

/-- An array is left as some of its items in their order, unless it is removed. -/
theorem Pruned.array {template : Option Template} {items : List Json} {kept : Option Json}
    (h : Pruned template (some (.arr items)) kept) :
    ∃ left, left.Sublist items ∧ (kept = some (.arr left) ∨ kept = none ∧ left = []) := by
  cases template with
  | none => exact ⟨items, .refl _, Or.inl (pruned_unsaid_iff.1 h)⟩
  | some template =>
    cases template with
    | remove => exact ⟨[], List.nil_sublist _, Or.inr ⟨pruned_remove_iff.1 h, rfl⟩⟩
    | names listed => exact ⟨_, List.filter_sublist, Or.inl (Except.ok.inj h).symm⟩
    | nested entries => cases h

section Lists

variable {α : Type} {read : Json → Reading α} {write : α → Json} {name : α → String}

/-- Items that are written and read again keep their names. -/
theorem names_of_mapM {items values : List α}
    (hname : ∀ x ∈ items, ∀ y, read (write x) = .ok y → name y = name x)
    (h : (items.map write).mapM read = .ok values) : values.map name = items.map name := by
  rw [mapM_eq_ok_iff, List.forall₂_map_left_iff] at h
  have hnames : List.Forall₂ (fun x y => name y = name x) items values :=
    (List.forall₂_and_left _ _).2 ⟨hname, h⟩ |>.imp fun x y hxy => hxy.1 y hxy.2
  have heq : List.Forall₂ (· = ·) (values.map name) (items.map name) := by
    rw [List.forall₂_map_left_iff, List.forall₂_map_right_iff]
    exact hnames.flip
  rwa [List.forall₂_eq_eq_eq] at heq

/-- **What is left of a written list has some of its names**, in their order. -/
theorem names_of_left {template : Option Template} {items values : List α} {kept : Option Json}
    (hname : ∀ x ∈ items, ∀ y, read (write x) = .ok y → name y = name x)
    (h : Pruned template (some (.arr (items.map write))) kept)
    (hsome : ∀ left, kept = some (.arr left) → left.mapM read = .ok values)
    (hnone : kept = none → values = []) :
    (values.map name).Sublist (items.map name) := by
  obtain ⟨left, hleft, rfl | ⟨rfl, -⟩⟩ := h.array
  · obtain ⟨spared, hspared, rfl⟩ := List.sublist_map_iff.1 hleft
    rw [names_of_mapM (fun x hx => hname x (hspared.subset hx)) (hsome _ rfl)]
    exact hspared.map name
  · rw [hnone rfl]
    exact List.nil_sublist _

/-- A list that may be left out keeps some of its names if it does where it is there. -/
theorem names_of_optional {template : Option Template} {read : Json → Reading (List α)}
    {write : List α → Json} {items result : Option (List α)} {left : List (String × Json)}
    {field : String}
    (hitems : ∀ l kept values, items = some l → Pruned template (some (write l)) (some kept) →
      read kept = .ok values → (values.map name).Sublist (l.map name))
    (h : Pruned template (items.map write) (Entries.get? left field))
    (hread : Read.optional read left field = .ok result) :
    ((result.getD []).map name).Sublist ((items.getD []).map name) := by
  rw [Read.optional] at hread
  split at hread
  · cases pure_eq_ok_iff.1 hread
    exact List.nil_sublist _
  · cases pure_eq_ok_iff.1 hread
    exact List.nil_sublist _
  · rename_i kept _ hkept
    obtain ⟨values, hvalues, rfl⟩ := map_eq_ok_iff.1 hread
    rw [hkept] at h
    cases items with
    | none => cases pruned_absent_iff.1 h
    | some l => exact hitems l kept values rfl h hvalues

theorem IdentitiesDistinct.of_names {l m : List α} (hl : IdentitiesDistinct name l)
    (h : (m.map name).Sublist (l.map name)) : IdentitiesDistinct name m :=
  identitiesDistinct_iff.2 ((identitiesDistinct_iff.1 hl).sublist h)

end Lists

/-! ## Graphs -/

section Graph

variable {g pruned : Graph} {template : Template}

/-- The lists of a pruned graph, and what they are read from. -/
theorem Graph.prune_lists (hg : g.Tidy) (h : g.prune template = .ok pruned) :
    ∃ (left : List (String × Json)) (raw : Graph),
      Pruned (template.at? "typedefs") (g.typedefs.map (typedefsToJson .ascending))
        (Entries.get? left "typedefs") ∧
      Pruned (template.at? "namespaces")
        (g.namespaces.map fun items => .arr (items.map (Interface.toJson .ascending)))
        (Entries.get? left "namespaces") ∧
      Read.optional typedefsOfJson left "typedefs" = .ok raw.typedefs ∧
      Read.optional (Read.list Interface.ofJson) left "namespaces" = .ok raw.namespaces ∧
      pruned = raw.fillNames := by
  obtain ⟨left, raw, hfields, hraw, rfl⟩ := Graph.prune_raw h rfl (Entries.ascending_sorted _)
  have hnames := hfields "namespaces"
  have htypes := hfields "typedefs"
  rw [get?_written hg.extra (by decide)] at hnames htypes
  simp only [Graph.ofRawJson, bind_eq_ok_iff, pure_eq_ok_iff] at hraw
  obtain ⟨_, hobject, _, -, _, -, _, -, _, -, _, -, _, -, namespaces, hnamespaces, typedefs,
    htypedefs, rfl⟩ := hraw
  cases pure_eq_ok_iff.1 hobject
  exact ⟨left, _, by simpa using htypes, by simpa using hnames, htypedefs, hnamespaces, rfl⟩

/-- The names of the type definitions of a pruned graph are some of those that were there. -/
theorem Graph.names_typedefs_prune (hg : g.Tidy) (h : g.prune template = .ok pruned) :
    ((pruned.typedefs.getD []).map Typedef.name).Sublist
      ((g.typedefs.getD []).map Typedef.name) := by
  obtain ⟨left, raw, hleft, -, hread, -, rfl⟩ := Graph.prune_lists hg h
  refine names_of_optional (fun items kept values hitems hkept hvalues => ?_) hleft hread
  have hname : ∀ t ∈ items, ∀ u, Typedef.ofJson (t.toJson .ascending) = .ok u → u.name = t.name := by
    intro t ht u hu
    rw [(Typedef.restores (hg.typedefs items hitems t ht)).read_eq] at hu
    rw [Except.ok.inj hu]
  obtain ⟨fields, -, hobject, hfield⟩ := Pruned.field (List.pairwise_singleton _ _) hkept
  obtain rfl : kept = .obj fields := by simpa using hobject
  rw [typedefsOfJson, Read.record, Read.orElse] at hvalues
  refine names_of_left hname (hfield "typedef") (fun left hleft => ?_) fun hnone => ?_
  · rwa [hleft] at hvalues
  · rw [hnone] at hvalues
    exact (pure_eq_ok_iff.1 hvalues).symm

/-- The names of the namespaces of a pruned graph are some of those that were there. -/
theorem Graph.names_namespaces_prune (hg : g.Tidy) (h : g.prune template = .ok pruned) :
    ((pruned.namespaces.getD []).map Interface.name).Sublist
      ((g.namespaces.getD []).map Interface.name) := by
  obtain ⟨left, raw, -, hleft, -, hread, rfl⟩ := Graph.prune_lists hg h
  have hfilled : (raw.fillNames.namespaces.getD []).map Interface.name =
      (raw.namespaces.getD []).map Interface.name := by
    cases hraw : raw.namespaces <;>
      simp [Graph.fillNames, hraw, Function.comp_def, Interface.fillMemberNames]
  rw [hfilled]
  refine names_of_optional (fun items kept values hitems hkept hvalues => ?_) hleft hread
  have hname : ∀ n ∈ items, ∀ m, Interface.ofJson (n.toJson .ascending) = .ok m → m.name = n.name :=
    fun n hn m hm => Interface.name_written (hg.namespaces items hitems n hn) hm
  refine names_of_left hname hkept (fun left hleft => ?_) fun hnone => ?_
  · cases hleft
    exact hvalues
  · cases hnone

/-- **Pruning keeps names apart**, whatever the template. -/
theorem Graph.IdentitiesDistinct.prune (hd : g.IdentitiesDistinct) (hg : g.Tidy)
    (h : g.prune template = .ok pruned) : pruned.IdentitiesDistinct where
  typedefs := IdlDecls.IdentitiesDistinct.of_names hd.typedefs (Graph.names_typedefs_prune hg h)
  namespaces :=
    IdlDecls.IdentitiesDistinct.of_names hd.namespaces (Graph.names_namespaces_prune hg h)

end Graph

end IdlDecls
