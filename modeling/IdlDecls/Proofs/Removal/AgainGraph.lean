import IdlDecls.Proofs.Removal.AgainTypes
import IdlDecls.Proofs.Removal.Marks

/-!
# Graphs pruned again

Reading a pruned graph back creates what the template took and the format has a default for: names
come back from keys, and collections and lists come back empty. Written out again, these are values
of the shape that they had before, so the template takes them once more without a mismatch, and they
come back once more (`Graph.prune_again`).
-/

namespace IdlDecls

open Read

/-! ## Namespaces -/

/-- The name that a written interface goes by is told by its name and its extra fields. -/
theorem Interface.identity?_congr {i j : Interface} (hi : i.extra.Beside Interface.keys)
    (hname : j.name = i.name) (hextra : j.extra = i.extra) :
    (j.toJson .ascending).identity? = (i.toJson .ascending).identity? := by
  have hj : j.extra.Beside Interface.keys := hextra ▸ hi
  have hnew : ∀ i : Interface, ∀ fields, i.toJson .ascending = .obj fields →
      Entries.get? fields "new-type" = i.extra.get? "new-type" := by
    intro i fields h
    rw [Interface.toJson, Layout.ascending] at h
    cases h
    rw [Entries.get?_sorted]
    refine (last?_append _ i.extra.entries "new-type").trans ?_
    rw [last?_entries]
    simp
  rw [Interface.toJson, Interface.toJson, Layout.ascending, Layout.ascending, Json.identity?,
    Json.identity?, Json.nonemptyText?, Json.nonemptyText?, Json.nonemptyText?, Json.nonemptyText?,
    hnew j _ rfl, hnew i _ rfl, get?_written hi (by decide : "name" ∈ Interface.keys),
    get?_written hj (by decide : "name" ∈ Interface.keys), hextra]
  simp [hname]

theorem Interface.extra_written {i j : Interface} (hi : i.Tidy)
    (hread : Interface.ofJson (i.toJson .ascending) = .ok j) : j.extra = i.extra := by
  simp only [Interface.ofJson, bind_eq_ok_iff, pure_eq_ok_iff] at hread
  obtain ⟨_, hfields, _, -, _, -, _, -, _, -, _, -, _, -, _, -, _, -, _, -, _, -, _, -, _, -,
    rfl⟩ := hread
  cases pure_eq_ok_iff.1 hfields
  exact rest_written hi.extra (by simp [Interface.keys])

/-- Namespaces are pruned again: what is read of one goes by its name still, so that no list that
spared it takes it then. -/
theorem again_namespaces {items : List Interface} (h : ∀ i ∈ items, i.Tidy) :
    AgainAs (List.map Interface.fillMemberNames) (list Interface.ofJson)
      (fun items => .arr (items.map (Interface.toJson .ascending))) items := by
  refine again_list fun i hi result hresult => ⟨?_, ?_⟩
  · obtain ⟨kept', hkept', hread⟩ := Interface.again (h i hi) (f := id) (fun _ => rfl) none _ result
      (pruned_unsaid_iff.2 rfl) hresult
    rw [Option.some.inj (pruned_unsaid_iff.1 hkept')] at hread
    exact hread
  · have hname : result.name = i.name := Interface.name_written (h i hi) hresult
    have hextra : result.extra = i.extra := Interface.extra_written (h i hi) hresult
    exact Interface.identity?_congr (h i hi).extra hname hextra

/-! ## Graphs -/

/-- **A graph is pruned again**, and reads as the same under the names from its keys. -/
theorem Graph.again {g : Graph} (hg : g.Tidy) :
    AgainAs Graph.fillNames Graph.ofRawJson Graph.toValue g := by
  intro said kept result hkept hread
  obtain ⟨left, rfl, hleft⟩ := Pruned.written hg.extra hkept
  simp only [Graph.ofRawJson, bind_eq_ok_iff, pure_eq_ok_iff] at hread
  obtain ⟨_, hfields, functions, hfunctions, callbacks, hcallbacks, dictionaries, hdictionaries,
    enums, henums, interfaces, hinterfaces, mixins, hmixins, namespaces, hnamespaces,
    typedefs, htypedefs, rfl⟩ := hread
  cases pure_eq_ok_iff.1 hfields
  have afunctions := collection_again _
    (fun key f hf => CallbackFunction.again (hg.callbackFunctions key f hf) key)
    (by simpa using hleft "callback-functions" (by decide)) hfunctions
  have acallbacks := collection_again Interface.fillNames
    (fun key i hi => Interface.again (hg.callbackInterfaces key i hi) (nameOr_nameOr key))
    (by simpa using hleft "callback-interfaces" (by decide)) hcallbacks
  have adictionaries := collection_again _
    (fun key d hd => Dictionary.again (hg.dictionaries key d hd) key)
    (by simpa using hleft "dictionaries" (by decide)) hdictionaries
  have aenums := collection_again _ (fun key e he => Enumeration.again (hg.enums key e he) key)
    (by simpa using hleft "enums" (by decide)) henums
  have ainterfaces := collection_again Interface.fillNames
    (fun key i hi => Interface.again (hg.interfaces key i hi) (nameOr_nameOr key))
    (by simpa using hleft "interfaces" (by decide)) hinterfaces
  have amixins := collection_again Interface.fillNames
    (fun key i hi => Interface.again (hg.mixins key i hi) (nameOr_nameOr key))
    (by simpa using hleft "mixins" (by decide)) hmixins
  have anamespaces := optional_again
    (fun items hitems => again_namespaces (hg.namespaces items hitems)) ⟨_, rfl⟩
    (by simpa using hleft "namespaces" (by decide)) hnamespaces
  have atypedefs := optional_again_id
    (fun items hitems => again_typedefs (hg.typedefs items hitems)) ⟨_, rfl⟩
    (by simpa using hleft "typedefs" (by decide)) htypedefs
  simp only [Graph.fillNames]
  refine hkept.record_again Graph.fieldKeys ?_ ?_ fun left' hrest hleft' => ?_
  · simp [Graph.fieldKeys]
  · simp only [Graph.fieldKeys, List.forall_mem_cons]
    exact ⟨by simpa using afunctions.pruned, by simpa using acallbacks.pruned,
      by simpa using adictionaries.pruned, by simpa using aenums.pruned,
      by simpa using ainterfaces.pruned, by simpa using amixins.pruned,
      by simpa using atypedefs.pruned, by simpa using anamespaces.pruned, List.forall_mem_nil _⟩
  · obtain ⟨functions', hfunctions', hfillFunctions⟩ :=
      afunctions.read left' (by simpa using hleft' "callback-functions" (by decide))
    obtain ⟨callbacks', hcallbacks', hfillCallbacks⟩ :=
      acallbacks.read left' (by simpa using hleft' "callback-interfaces" (by decide))
    obtain ⟨dictionaries', hdictionaries', hfillDictionaries⟩ :=
      adictionaries.read left' (by simpa using hleft' "dictionaries" (by decide))
    obtain ⟨enums', henums', hfillEnums⟩ :=
      aenums.read left' (by simpa using hleft' "enums" (by decide))
    obtain ⟨interfaces', hinterfaces', hfillInterfaces⟩ :=
      ainterfaces.read left' (by simpa using hleft' "interfaces" (by decide))
    obtain ⟨mixins', hmixins', hfillMixins⟩ :=
      amixins.read left' (by simpa using hleft' "mixins" (by decide))
    obtain ⟨namespaces', hnamespaces', hfillNamespaces⟩ :=
      anamespaces.read left' (by simpa using hleft' "namespaces" (by decide))
    refine ⟨{ callbackFunctions := functions', callbackInterfaces := callbacks',
              dictionaries := dictionaries', enums := enums', interfaces := interfaces',
              mixins := mixins', namespaces := namespaces', typedefs,
              extra := rest Graph.fieldKeys left' }, ?_, ?_⟩
    · simp only [Graph.ofRawJson, bind_eq_ok_iff, pure_eq_ok_iff]
      exact ⟨_, rfl, _, hfunctions', _, hcallbacks', _, hdictionaries', _, henums', _, hinterfaces',
        _, hmixins', _, hnamespaces', _,
        atypedefs.read left' (by simpa using hleft' "typedefs" (by decide)), rfl⟩
    · simp only [hrest, hfillFunctions, hfillCallbacks, hfillDictionaries, hfillEnums,
        hfillInterfaces, hfillMixins, hfillNamespaces]
      rfl

/-- **A pruned graph is pruned to itself.** -/
theorem Graph.prune_again {g pruned : Graph} {t : Template} (hg : g.Tidy)
    (h : g.prune t = .ok pruned) : pruned.prune t = .ok pruned := by
  by_cases ht : t = .remove
  · -- nothing is left of either, and nothing is read as the empty graph
    subst ht
    have hkept : ∀ g : Graph, g.toValue.prune .remove = .ok none := fun g => by rw [Json.prune]
    rw [Graph.prune, hkept] at h ⊢
    exact h
  rw [Graph.prune] at h ⊢
  obtain ⟨kept?, hkept, h⟩ := bind_eq_ok_iff.1 h
  rw [mapError_eq_ok_iff] at hkept h
  have hpruned : Pruned (some t) (some g.toValue) kept? := hkept
  obtain ⟨kept, rfl⟩ := hpruned.exists_of_ne_remove (by simpa using ht)
  obtain ⟨raw, hraw, rfl⟩ := map_eq_ok_iff.1 h
  obtain ⟨kept', hkept', raw', hraw', hfill⟩ := Graph.again hg _ kept raw hpruned hraw
  refine bind_eq_ok_iff.2 ⟨some kept', mapError_eq_ok_iff.2 hkept', mapError_eq_ok_iff.2 ?_⟩
  exact map_eq_ok_iff.2 ⟨raw', hraw', hfill⟩

/-! ## Removals -/

/-- **Removals can be repeated and exchanged**: what a template leaves of a value it leaves again,
two templates that can follow each other both ways leave the same both ways, and a pruned graph is
pruned to itself. A graph is tidy if its extra fields, and those of what it holds, stand beside the
fields of the format (`Graph.tidy_of_ofJson`). -/
theorem removals_again_and_commute :
    (∀ (value kept : Json) (t : Template),
      value.prune t = .ok (some kept) → kept.prune t = .ok (some kept)) ∧
    (∀ (value : Json) (s t : Template) (a ab b ba : Json),
      value.prune s = .ok (some a) → a.prune t = .ok (some ab) →
      value.prune t = .ok (some b) → b.prune s = .ok (some ba) → ab = ba) ∧
    ∀ (g pruned : Graph) (t : Template),
      g.Tidy → g.prune t = .ok pruned → pruned.prune t = .ok pruned := by
  refine ⟨fun _ _ _ h => Json.prune_again h, fun value s t a ab b ba ha hab hb hba => ?_,
    fun _ _ _ hg h => Graph.prune_again hg h⟩
  have hs : Pruned (some s) (some value) (some a) := ha
  have hst : Pruned (some t) (some a) (some ab) := hab
  have ht : Pruned (some t) (some value) (some b) := hb
  have hts : Pruned (some s) (some b) (some ba) := hba
  exact Option.some.inj (hs.commute hst ht hts)

/-- The written form of a graph with an interface and namespaces with some names. -/
def buoyValue (fields : List (String × Json)) (names : List String) : Json :=
  .obj [("interfaces", .obj [("interface", .obj [("Buoy", .obj fields)])]),
    ("namespaces", .arr (names.map fun name => .obj [("name", .str name)]))]

/-- An interface that is exposed and has a method, beside two namespaces. -/
def buoyJson : Json :=
  buoyValue [("exposed", .str "Window"), ("methods", .obj [("method", .obj [("ring", .obj [])])])]
    ["Tide", "Swell"]

/-- The graph, with the methods that the interface has. -/
def buoyGraph (methods : Keyed Method) : Graph where
  interfaces := some (.ofList [("Buoy", { name := "Buoy", exposed := some (.ofText "Window"),
                                          methods := some methods })])
  namespaces := some [{ name := "Tide" }, { name := "Swell" }]

/-- Takes the name of the interface and its methods. -/
def buoyTemplate : Template :=
  .nested [("interfaces", .nested [("interface",
    .nested [("Buoy", .nested [("methods", .names ["method"]), ("name", .remove)])])])]

/-- Takes the exposure of the interface, one of its methods and a namespace. -/
def ringTemplate : Template :=
  .nested [("interfaces", .nested [("interface", .nested [("Buoy", .nested [("exposed", .remove),
      ("methods", .nested [("method", .names ["ring"])])])])]),
    ("namespaces", .names ["Tide"])]

/-- The name and an empty collection are created by reading, and taken and created again. -/
theorem buoyGraph_prune_again :
    Graph.ofJson buoyJson = .ok (buoyGraph (.ofList [("ring", { name := "ring" })])) ∧
      (buoyGraph (.ofList [("ring", { name := "ring" })])).prune buoyTemplate = .ok (buoyGraph ∅) ∧
      (buoyGraph ∅).prune buoyTemplate = .ok (buoyGraph ∅) ∧
      ∃ a b ab ba, buoyJson.prune buoyTemplate = .ok (some a) ∧ a ≠ buoyJson ∧
        a.prune buoyTemplate = .ok (some a) ∧ a.prune ringTemplate = .ok (some ab) ∧
        buoyJson.prune ringTemplate = .ok (some b) ∧ b ≠ buoyJson ∧
        b.prune buoyTemplate = .ok (some ba) ∧ ab = ba := by
  have hread : Graph.ofJson buoyJson =
      .ok (buoyGraph (.ofList [("ring", { name := "ring" })])) := by decide +kernel
  have hprune : (buoyGraph (.ofList [("ring", { name := "ring" })])).prune buoyTemplate =
      .ok (buoyGraph ∅) := by decide +kernel
  have htidy := Graph.tidy_of_ofJson hread
  obtain ⟨hagain, hcommute, hgraphs⟩ := removals_again_and_commute
  have ha : buoyJson.prune buoyTemplate = .ok (some (buoyValue
      [("exposed", .str "Window"), ("methods", .obj [])] ["Tide", "Swell"])) := by decide +kernel
  have hb : buoyJson.prune ringTemplate = .ok (some (buoyValue
      [("methods", .obj [("method", .obj [])])] ["Swell"])) := by decide +kernel
  have hab : (buoyValue [("exposed", .str "Window"), ("methods", .obj [])] ["Tide", "Swell"]).prune
      ringTemplate = .ok (some (buoyValue [("methods", .obj [])] ["Swell"])) := by decide +kernel
  have hba : (buoyValue [("methods", .obj [("method", .obj [])])] ["Swell"]).prune buoyTemplate =
      .ok (some (buoyValue [("methods", .obj [])] ["Swell"])) := by decide +kernel
  exact ⟨hread, hprune, hgraphs _ _ _ htidy hprune, _, _, _, _, ha, by decide +kernel,
    hagain _ _ _ ha, hab, hb, by decide +kernel, hba, hcommute _ _ _ _ _ _ _ ha hab hb hba⟩

/-- An extra field that takes the place of a field of the format is no extra field any more when it
is read back: a name is filled in where there was none, and the template does not fit it. Reading
makes no such graph. -/
theorem misplaced_extra_not_prune_again :
    ∃ (g pruned : Graph) (t : Template), g.prune t = .ok pruned ∧ pruned.prune t ≠ .ok pruned := by
  refine ⟨{ extra := .ofList [("interfaces", .obj [("interface", .obj [("Buoy", .obj [])])])] },
    { interfaces := some (.ofList [("Buoy", { name := "Buoy" })]) },
    .nested [("interfaces", .nested [("interface", .nested [("Buoy",
      .nested [("name", .names [])])])])], ?_, ?_⟩
  all_goals decide +kernel

end IdlDecls
