import IdlDecls.Proofs.Merge.Marks
import IdlDecls.Proofs.Removal.Conventions

/-!
# Marks that removals leave

A removal template says something of a mark if it has a node for the place of the mark or removes
something above it (`Mark.said`). A mark of which nothing is said is written out, left alone and read
again, so the pruned graph has it as well (`Graph.marked_prune`). Namespaces stand in a list from which
a template can only take whole items, so one that is not listed keeps its marks
(`Graph.namespaces_prune`).
-/

namespace IdlDecls

open Read

/-! ## What templates say of marks -/

/-- What a removal template says of the place of a mark in a definition, from what it says of the
definition. -/
def Mark.said (definition : Option Template) : Mark → Option Template
  | .whole => definition.bind (·.at? "deprecated")
  | .method name => (((definition.bind (·.at? "methods")).bind (·.at? "method")).bind
      (·.at? name)).bind (·.at? "deprecated")
  | .property name => (((definition.bind (·.at? "properties")).bind (·.at? "property")).bind
      (·.at? name)).bind (·.at? "deprecated")

/-- The field of a family in the written form of a graph, and the key of its entries there. -/
def Family.keys : Family → String × String
  | .of .interfaces => ("interfaces", "interface")
  | .of .mixins => ("mixins", "mixin")
  | .callbackInterfaces => ("callback-interfaces", "interface")

/-- What a removal template says of the definition of a family with a name. -/
def Family.said (family : Family) (template : Template) (name : String) : Option Template :=
  ((template.at? family.keys.1).bind (·.at? family.keys.2)).bind (·.at? name)

/-- Of a definition that it does not touch, a template says nothing about any mark. -/
@[simp] theorem Mark.said_none (mark : Mark) : mark.said none = none := by
  cases mark <;> rfl

theorem Mark.said_remove (mark : Mark) : mark.said (some .remove) = some .remove := by
  cases mark <;> rfl

/-! ## Values that are left -/

/-- Only `remove` leaves nothing of a value. -/
theorem Pruned.exists_of_ne_remove {template : Option Template} {value : Json} {kept : Option Json}
    (h : Pruned template (some value) kept) (htemplate : template ≠ some .remove) :
    ∃ left, kept = some left := by
  cases template with
  | none => exact ⟨value, pruned_unsaid_iff.1 h⟩
  | some template =>
    cases template with
    | remove => exact absurd rfl htemplate
    | names listed =>
      rw [Pruned, Json.prune] at h
      obtain ⟨left, -, rfl⟩ := map_eq_ok_iff.1 h
      exact ⟨left, rfl⟩
    | nested entries =>
      cases value with
      | obj fields =>
        obtain ⟨left, -, rfl⟩ := map_eq_ok_iff.1 h
        exact ⟨_, rfl⟩
      | null | bool _ | num _ | str _ | arr _ => cases h

/-- A flag of which nothing is said is read as it was written. -/
theorem flag_left {template : Option Template} {left : List (String × Json)} {field : String}
    {value result : Option Bool} (h : Pruned template (value.map .bool) (Entries.get? left field))
    (hsaid : template = none) (hread : flag left field = .ok result) : result = value := by
  subst hsaid
  rw [flag_written (pruned_unsaid_iff.1 h)] at hread
  exact (Except.ok.inj hread).symm

theorem Method.deprecated_left {m n : Method} (hm : m.Tidy) {template : Option Template} {kept : Json}
    (h : Pruned template (some (m.toJson .ascending)) (some kept)) (hread : Method.ofJson kept = .ok n)
    (hsaid : template.bind (·.at? "deprecated") = none) : n.deprecated = m.deprecated := by
  obtain ⟨left, rfl, hleft⟩ := h.written hm.extra
  have hfield := hleft "deprecated" (by decide)
  simp only [Method.ofJson, bind_eq_ok_iff, pure_eq_ok_iff] at hread
  obtain ⟨_, hfields, _, -, deprecated, hdeprecated, _, -, _, -, _, -, _, -, rfl⟩ := hread
  cases pure_eq_ok_iff.1 hfields
  exact flag_left (by simpa using hfield) hsaid hdeprecated

theorem Property.deprecated_left {p q : Property} (hp : p.Tidy) {template : Option Template}
    {kept : Json} (h : Pruned template (some (p.toJson .ascending)) (some kept))
    (hread : Property.ofJson kept = .ok q) (hsaid : template.bind (·.at? "deprecated") = none) :
    q.deprecated = p.deprecated := by
  obtain ⟨left, rfl, hleft⟩ := h.written hp.extra
  have hfield := hleft "deprecated" (by decide)
  simp only [Property.ofJson, bind_eq_ok_iff, pure_eq_ok_iff] at hread
  obtain ⟨_, hfields, _, -, deprecated, hdeprecated, _, -, _, -, _, -, _, -, _, -, rfl⟩ := hread
  cases pure_eq_ok_iff.1 hfields
  exact flag_left (by simpa using hfield) hsaid hdeprecated

/-- An entry that is marked is there and marked in what is left of the collection. -/
theorem marked_collection_left {α : Type} {read : Json → Reading α} {write : α → Json}
    {deprecated : α → Option Bool} {template : Option Template} {left : List (String × Json)}
    {field entries name : String} {c result : Option (Keyed α)}
    (hentry : ∀ x, lookup? c name = some x → ∀ said kept y, Pruned said (some (write x)) (some kept) →
      read kept = .ok y → said.bind (·.at? "deprecated") = none → deprecated y = deprecated x)
    (h : Pruned template (c.map (Write.collection .ascending entries write))
      (Entries.get? left field))
    (hread : Read.optional (Read.collection entries read) left field = .ok result)
    (hsaid : ((template.bind (·.at? entries)).bind (·.at? name)).bind (·.at? "deprecated") = none)
    (hset : (lookup? c name).any (fun x => decide (deprecated x = some true)) = true) :
    (lookup? result name).any (fun x => decide (deprecated x = some true)) = true := by
  obtain ⟨kept, hascending, hheld, hkeys⟩ := pruned_collection h
  have hresult := readAs_of_collection hread hheld hascending name
  have hkey := hkeys name
  cases hx : lookup? c name with
  | none => simp [hx] at hset
  | some x =>
    rw [hx] at hkey hset
    have hspared : (template.bind (·.at? entries)).bind (·.at? name) ≠ some .remove := by
      intro hremove
      rw [hremove] at hsaid
      cases hsaid
    obtain ⟨kept, hkept⟩ := Pruned.exists_of_ne_remove hkey hspared
    rw [hkept] at hkey hresult
    obtain ⟨y, hy, hresult⟩ := hresult
    rw [hresult, Option.any_some, hentry x hx _ kept y hkey hy hsaid]
    exact hset

/-- **A mark of which nothing is said is left to an interface.** -/
theorem Interface.marked_left {i j : Interface} (hi : i.Tidy) {template : Option Template}
    {kept : Json} (h : Pruned template (some (i.toJson .ascending)) (some kept))
    (hread : Interface.ofJson kept = .ok j) {mark : Mark} (hsaid : mark.said template = none)
    (hset : i.marked mark = true) : j.marked mark = true := by
  obtain ⟨left, rfl, hleft⟩ := h.written hi.extra
  simp only [Interface.ofJson, bind_eq_ok_iff, pure_eq_ok_iff] at hread
  obtain ⟨_, hfields, _, -, _, -, _, -, deprecated, hdeprecated, _, -, _, -, _, -, _, -, methods,
    hmethods, _, -, _, -, properties, hproperties, rfl⟩ := hread
  cases pure_eq_ok_iff.1 hfields
  cases mark with
  | whole =>
    have hwhole := hleft "deprecated" (by decide)
    have hsame : deprecated = i.deprecated :=
      flag_left (by simpa [Mark.said] using hwhole) hsaid hdeprecated
    rwa [marked, hsame]
  | method name =>
    have hwritten := hleft "methods" (by decide)
    exact marked_collection_left
      (fun m hm _ _ _ hpruned => Method.deprecated_left (hi.methods name m hm) hpruned)
      (by simpa using hwritten) hmethods hsaid hset
  | property name =>
    have hwritten := hleft "properties" (by decide)
    exact marked_collection_left
      (fun p hp _ _ _ hpruned => Property.deprecated_left (hi.properties name p hp) hpruned)
      (by simpa using hwritten) hproperties hsaid hset

/-! ## Graphs -/

/-- A definition of a family is pruned on its own. -/
theorem Graph.prunedEntry {g pruned : Graph} {template : Template}
    (hextra : g.extra.Beside Graph.fieldKeys) (h : g.prune template = .ok pruned) (family : Family)
    (name : String) :
    PrunedEntry template family.keys.1 family.keys.2 name (family.get? g name)
      (family.get? pruned name) := by
  cases family with
  | of c =>
    cases c with
    | interfaces => exact Graph.interface?_prune hextra h name
    | mixins => exact Graph.mixin?_prune hextra h name
  | callbackInterfaces =>
    obtain ⟨left, raw, hfields, hraw, rfl⟩ := Graph.prune_raw h rfl (Entries.ascending_sorted _)
    have hwritten := get?_written hextra (by decide : "callback-interfaces" ∈ fieldKeys)
    simp only [Graph.ofRawJson, bind_eq_ok_iff, pure_eq_ok_iff] at hraw
    obtain ⟨_, hobject, _, -, callbacks, hcallbacks, _, -, _, -, _, -, _, -, _, -, _, -, rfl⟩ := hraw
    cases pure_eq_ok_iff.1 hobject
    exact prunedEntry_of_collection ((hwritten _).trans (by simp)) (hfields "callback-interfaces")
      hcallbacks name

/-- **A mark of which nothing is said is left to a graph.** -/
theorem Graph.marked_prune {g pruned : Graph} {template : Template} (hg : g.Tidy)
    (h : g.prune template = .ok pruned) {family : Family} {name : String} {mark : Mark}
    (hsaid : mark.said (family.said template name) = none)
    (hset : g.marked family name mark = true) : pruned.marked family name mark = true := by
  have htidy : ∀ i, family.get? g name = some i → i.Tidy := by
    intro i hi
    cases family with
    | of c =>
      cases c with
      | interfaces => exact hg.interfaces name i hi
      | mixins => exact hg.mixins name i hi
    | callbackInterfaces => exact hg.callbackInterfaces name i hi
  obtain ⟨kept, hkept, hread⟩ := Graph.prunedEntry hg.extra h family name
  rw [Graph.marked] at hset ⊢
  cases hi : family.get? g name with
  | none => simp [hi] at hset
  | some i =>
    rw [hi] at hkept hset
    have hspared : family.said template name ≠ some .remove := by
      intro hremove
      rw [hremove, Mark.said_remove] at hsaid
      cases hsaid
    obtain ⟨left, rfl⟩ := Pruned.exists_of_ne_remove hkept hspared
    obtain ⟨filled, hfilled, hnew⟩ := hread
    obtain ⟨j, hj, rfl⟩ := map_eq_ok_iff.1 hfilled
    rw [hnew, Option.any_some, Interface.marked_fillNames]
    exact Interface.marked_left (htidy i hi) hkept hj hsaid hset

/-! ## Namespaces -/

/-- A removal template leaves a namespace as it is: it says nothing of namespaces, or it lists the names
of some, but not the one that this goes by. -/
def Template.SparesNamespace (template : Template) (n : Interface) : Prop :=
  ∀ said, template.at? "namespaces" = some said → ∃ listed, said = .names listed ∧
    ∀ name ∈ (n.toJson .ascending).identity?, name ∉ listed

/-- A namespace with a name goes by it. -/
theorem Interface.identity?_toJson {n : Interface} (hn : n.extra.Beside Interface.keys)
    (hname : n.name ≠ "") : (n.toJson .ascending).identity? = some n.name := by
  have hwritten := get?_written hn (by decide : "name" ∈ Interface.keys)
  exact Json.identity?_of_name ((hwritten _).trans (by simp)) hname

/-- A namespace that keeps its name is spared as it was. -/
theorem Template.SparesNamespace.kept {template : Template} {old new : Interface}
    (h : template.SparesNamespace old) (hold : old.Tidy) (hnew : new.Tidy)
    (hkept : old.MarksKept new) : template.SparesNamespace new := by
  by_cases hname : old.name = ""
  · rwa [hkept.nameless hname]
  · have hsame : (new.toJson .ascending).identity? = (old.toJson .ascending).identity? := by
      rw [Interface.identity?_toJson hold.extra hname,
        Interface.identity?_toJson hnew.extra (hkept.name ▸ hname), hkept.name]
    rwa [SparesNamespace, hsame]

theorem Interface.name_written {n m : Interface} (hn : n.Tidy)
    (hread : Interface.ofJson (n.toJson .ascending) = .ok m) : m.name = n.name := by
  have hwritten := get?_written hn.extra (by decide : "name" ∈ Interface.keys)
  simp only [Interface.ofJson, bind_eq_ok_iff, pure_eq_ok_iff] at hread
  obtain ⟨_, hfields, _, -, _, -, _, -, _, -, _, -, _, -, _, -, _, -, _, -, name, hname, _, -, _, -,
    rfl⟩ := hread
  cases pure_eq_ok_iff.1 hfields
  rw [orElse_written (restores_text n.name) ((hwritten _).trans (by simp))] at hname
  exact (Except.ok.inj hname).symm

/-- What is left of a list of namespaces holds those that are spared. -/
theorem mem_of_pruned_namespaces {template : Template} {items : List Interface} {kept : Option Json}
    (h : Pruned (template.at? "namespaces")
      (some (.arr (items.map (Interface.toJson .ascending)))) kept)
    {n : Interface} (hn : n ∈ items) (hspared : template.SparesNamespace n) :
    ∃ written, kept = some (.arr written) ∧ n.toJson .ascending ∈ written := by
  have hmem : n.toJson .ascending ∈ items.map (Interface.toJson .ascending) :=
    List.mem_map_of_mem hn
  cases hsaid : template.at? "namespaces" with
  | none =>
    rw [hsaid] at h
    exact ⟨_, pruned_unsaid_iff.1 h, hmem⟩
  | some said =>
    obtain ⟨listed, rfl, hunlisted⟩ := hspared said hsaid
    rw [hsaid] at h
    obtain rfl : some (Json.arr _) = kept := Except.ok.inj h
    refine ⟨_, rfl, List.mem_filter.2 ⟨hmem, ?_⟩⟩
    cases hidentity : (n.toJson .ascending).identity? with
    | none => rfl
    | some name => simpa using hunlisted name hidentity

/-- **A namespace that is spared keeps its name and its marks.** -/
theorem Graph.namespaces_prune {g pruned : Graph} {template : Template} (hg : g.Tidy)
    (h : g.prune template = .ok pruned) {n : Interface} (hn : n ∈ g.namespaces.getD [])
    (hspared : template.SparesNamespace n) :
    ∃ m ∈ pruned.namespaces.getD [], m.name = n.name ∧
      ∀ mark, n.marked mark = true → m.marked mark = true := by
  obtain ⟨items, hitems, hn⟩ : ∃ items, g.namespaces = some items ∧ n ∈ items := by
    cases hnamespaces : g.namespaces with
    | none => simp [hnamespaces] at hn
    | some items => exact ⟨items, rfl, by simpa [hnamespaces] using hn⟩
  have hntidy := hg.namespaces items hitems n hn
  obtain ⟨left, raw, hfields, hraw, rfl⟩ := Graph.prune_raw h rfl (Entries.ascending_sorted _)
  have hfield := get?_written hg.extra (by decide : "namespaces" ∈ fieldKeys)
  have hleft := hfields "namespaces"
  rw [hfield] at hleft
  obtain ⟨written, hwritten, hmem⟩ :=
    mem_of_pruned_namespaces (by simpa [hitems] using hleft) hn hspared
  simp only [Graph.ofRawJson, bind_eq_ok_iff, pure_eq_ok_iff] at hraw
  obtain ⟨_, hobject, _, -, _, -, _, -, _, -, _, -, _, -, namespaces, hnamespaces, _, -, rfl⟩ := hraw
  cases pure_eq_ok_iff.1 hobject
  rw [Read.optional, hwritten] at hnamespaces
  obtain ⟨values, hvalues, rfl⟩ := map_eq_ok_iff.1 hnamespaces
  obtain ⟨m, hm, hread⟩ := exists_of_forall₂ (mapM_eq_ok_iff.1 hvalues).flip _ hmem
  have hname : m.name = n.name := Interface.name_written hntidy hread
  refine ⟨m.fillMemberNames, List.mem_map_of_mem hm, hname, fun mark hmark => ?_⟩
  rw [Interface.marked_fillMemberNames]
  exact Interface.marked_left hntidy (pruned_unsaid_iff.2 rfl) hread mark.said_none hmark

end IdlDecls
