import IdlDecls.Proofs.Model.Conventions

/-!
# Templates that find nothing to remove

A template that names nothing of what a value has leaves the value as it is
(`Json.prune_of_misses`). Pruning a graph with such a template writes the graph out and reads it
again, so the graph stays what it was because it comes back from its written form
(`Graph.restored_and_spared`). A list of names needs something to choose from: at a text, say, it
fails even if it is far from naming anything (`shelfGraph_names_at_text`).
-/

namespace IdlDecls

/-! ## Values -/

/-- The names by which a list of names can remove something from a value: the identities of an
array's items and the keys of an object. -/
def Json.removable : Json → List String
  | .arr items => items.filterMap identity?
  | .obj fields => fields.map (·.1)
  | _ => []

/-- Whether a list of names can choose from a value. -/
def Json.isListable : Json → Bool
  | .arr _ | .obj _ => true
  | _ => false

/-- A template names nothing that a value has: what it removes is absent, its lists name nothing of
what they meet, and it goes into nothing but objects. The values that a list may meet are those that
`meets` allows. -/
inductive Template.Misses (meets : Json → Prop) : Template → Json → Prop where
  | names {listed : List String} {value : Json} :
      meets value → (∀ name ∈ listed, name ∉ value.removable) →
      Template.Misses meets (.names listed) value
  | nested {entries : List (String × Template)} {fields : List (String × Json)} :
      (∀ key template value, Entries.get? entries key = some template → (key, value) ∈ fields →
        Template.Misses meets template value) →
      Template.Misses meets (.nested entries) (.obj fields)

/-- In an object with one field, what is missed there is missed in the object. -/
theorem Template.Misses.field {meets : Json → Prop} {entries : List (String × Template)}
    {key : String} {template : Template} {value : Json}
    (hsaid : Entries.get? entries key = some template) (h : template.Misses meets value) :
    (Template.nested entries).Misses meets (.obj [(key, value)]) := by
  refine .nested fun k t v ht hv => ?_
  cases List.mem_singleton.1 hv
  cases hsaid.symm.trans ht
  exact h

namespace Json

theorem removeNames_eq_self {listed : List String} {value : Json} (hvalue : value.isListable = true)
    (h : ∀ name ∈ listed, name ∉ value.removable) : removeNames listed value = .ok value := by
  cases value with
  | arr items =>
    have hfilter : (items.filter fun item => !(item.identity?.any listed.contains)) = items := by
      refine List.filter_eq_self.2 fun item hitem => ?_
      cases hname : item.identity? with
      | none => rfl
      | some name =>
        have hmem : name ∈ (Json.arr items).removable := List.mem_filterMap.2 ⟨item, hitem, hname⟩
        simpa using fun hlisted => h name hlisted hmem
    rw [removeNames, hfilter]
  | obj fields =>
    have hfilter : (fields.filter fun field => !listed.contains field.1) = fields := by
      refine List.filter_eq_self.2 fun field hfield => ?_
      have hmem : field.1 ∈ (Json.obj fields).removable := List.mem_map.2 ⟨field, hfield, rfl⟩
      simpa using fun hlisted => h field.1 hlisted hmem
    rw [removeNames, hfilter]
  | null | bool _ | num _ | str _ => cases hvalue

theorem pruneFields_eq_self {entries : List (String × Template)} :
    ∀ {fields : List (String × Json)},
      (∀ key template value, Entries.get? entries key = some template → (key, value) ∈ fields →
        value.prune template = .ok (some value)) →
      pruneFields fields entries = .ok fields
  | [], _ => by rw [pruneFields]
  | (key, value) :: rest, h => by
    have hrest : pruneFields rest entries = .ok rest :=
      pruneFields_eq_self fun k template v ht hv => h k template v ht (List.mem_cons_of_mem _ hv)
    rw [pruneFields, templateFor?, hrest]
    cases ht : Entries.get? entries key with
    | none => rfl
    | some template =>
      simp only [h key template value ht (List.mem_cons_self ..)]
      rfl

/-- **A template that names nothing removes nothing.** The induction follows the template into the
value, as pruning does. -/
theorem prune_of_misses {template : Template} {value : Json}
    (h : template.Misses (fun met => met.isListable = true) value) :
    value.prune template = .ok (some value) := by
  induction h with
  | names hmeets hnames =>
    rw [prune, removeNames_eq_self hmeets hnames]
    rfl
  | nested _ ih =>
    rw [prune, pruneFields_eq_self ih]
    rfl

end Json

/-! ## Graphs -/

theorem Graph.prune_of_misses {g : Graph} {template : Template} (h : Graph.ofJson g.toValue = .ok g)
    (hmisses : template.Misses (fun met => met.isListable = true) g.toValue) :
    g.prune template = .ok g := by
  rw [Graph.prune, Json.prune_of_misses hmisses]
  exact mapError_eq_ok_iff.2 h

/-- **Nothing is lost on the way through the written form.** A graph that is read comes back from it,
and every template that names nothing of it leaves it as it is. -/
theorem Graph.restored_and_spared {j : Json} {g : Graph} (h : Graph.ofJson j = .ok g)
    (hplain : ∀ e ∈ g.exposures, e.Plain) :
    Graph.ofJson g.toValue = .ok g ∧ g.prune (.nested []) = .ok g ∧
      ∀ entries : List (String × Template),
        (Template.nested entries).Misses (fun met => met.isListable = true) g.toValue →
        g.prune (.nested entries) = .ok g := by
  have hback : Graph.ofJson g.toValue = .ok g := (Graph.follows_plain_of_ofJson h hplain).ofJson_toValue
  refine ⟨hback, Graph.prune_of_misses hback (.nested ?_), fun entries => Graph.prune_of_misses hback⟩
  intro key template value ht
  cases ht

/-- A data file with one interface. -/
def shelfJson : Json :=
  .obj [("interfaces", .obj [("interface", .obj [("Shelf", .obj [
    ("exposed", .arr [.str "Window", .str "Worker"]),
    ("methods", .obj [("method", .obj [("find", .obj [
      ("signature", .arr [.obj [
        ("type", .arr [.obj [("type", .str "Book")], .obj [("type", .str "undefined")]]),
        ("nullable", .num (.int 1))]])])])])])])])]

/-- The graph of this data file. -/
def shelfGraph : Graph where
  interfaces := some (.ofList [("Shelf", {
    name := "Shelf"
    methods := some (.ofList [("find", {
      name := "find"
      signatures := [{
        type := ⟨some (.union [⟨some (.named "Book"), none, none⟩,
          ⟨some (.named "undefined"), none, none⟩]), none, some true⟩ }] })])
    exposed := some (.ofList ["Window", "Worker"]) })])

/-- The fields of the interface in the written form of the graph. -/
def shelfFields : List (String × Json) :=
  [("exposed", .str "Window Worker"),
    ("methods", .obj [("method", .obj [("find", .obj [("name", .str "find"),
      ("signature", .arr [.obj [("nullable", .bool true),
        ("type", .arr [.obj [("type", .str "Book")], .obj [("type", .str "undefined")]])]])])])]),
    ("name", .str "Shelf")]

/-- What a template for the interface misses there, the template around it misses in the graph. -/
theorem shelfGraph_misses {meets : Json → Prop} {template : Template}
    (h : template.Misses meets (.obj shelfFields)) :
    (Template.nested [("mixins", .remove),
      ("interfaces", .nested [("interface", .nested [("Shelf", template)])])]).Misses meets
      shelfGraph.toValue := by
  have hvalue : shelfGraph.toValue =
      .obj [("interfaces", .obj [("interface", .obj [("Shelf", .obj shelfFields)])])] := by
    decide +kernel
  rw [hvalue]
  exact .field rfl (.field rfl (.field rfl h))

/-- A list of names that the interface does not have leaves the graph as it is. -/
theorem shelfGraph_spared :
    Graph.ofJson shelfJson = .ok shelfGraph ∧ (∀ e ∈ shelfGraph.exposures, e.Plain) ∧
      Graph.ofJson shelfGraph.toValue = .ok shelfGraph ∧
      shelfGraph.prune (.nested []) = .ok shelfGraph ∧
      shelfGraph.prune (.nested [("mixins", .remove), ("interfaces", .nested [("interface",
        .nested [("Shelf", .names ["extends"])])])]) = .ok shelfGraph := by
  have hread : Graph.ofJson shelfJson = .ok shelfGraph := by decide +kernel
  have hplain : ∀ e ∈ shelfGraph.exposures, e.Plain := by decide +kernel
  obtain ⟨hback, hempty, hspared⟩ := Graph.restored_and_spared hread hplain
  refine ⟨hread, hplain, hback, hempty, hspared _ (shelfGraph_misses (.names rfl ?_))⟩
  decide +kernel

/-- A list of names fails at a text, though it names nothing there. -/
theorem shelfGraph_names_at_text :
    Graph.ofJson shelfJson = .ok shelfGraph ∧ (∀ e ∈ shelfGraph.exposures, e.Plain) ∧
      ∃ template : Template, (Template.nested [("mixins", .remove), ("interfaces",
          .nested [("interface", .nested [("Shelf", template)])])]).Misses (fun _ => True)
          shelfGraph.toValue ∧
        shelfGraph.prune (.nested [("mixins", .remove), ("interfaces",
          .nested [("interface", .nested [("Shelf", template)])])]) =
          .error (.mismatch ⟨["interfaces", "interface", "Shelf", "name"], .array⟩) := by
  refine ⟨by decide +kernel, by decide +kernel, .nested [("name", .names ["Attic"])],
    shelfGraph_misses (.nested fun key t value ht hv => ?_), by decide +kernel⟩
  obtain ⟨rfl, rfl⟩ : key = "name" ∧ Template.names ["Attic"] = t := by
    simpa [Entries.get?, eq_comm] using ht
  obtain rfl : value = .str "Shelf" := by simpa [shelfFields] using hv
  exact .names trivial (by simp [Json.removable])

end IdlDecls
