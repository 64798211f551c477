import IdlDecls.Proofs.Model.Restored

/-!
# Graphs in their written form

Interfaces and graphs come back from their written form as the smaller definitions do, if no context
of an exposure in them holds a blank and no value in them is null (`Graph.ofRawJson_toValue`). The names
are the ones that stand in the text here: filling them in from the keys is left out.
-/

namespace IdlDecls

open Read

/-! ## Exposures and values -/

/-- Every exposure in an interface: its own and those of what it holds. -/
def Interface.exposures (i : Interface) : List Exposure :=
  i.exposed.toList ++ i.overrideExposed.toList ++
    (valuesOf i.constants).filterMap (·.exposed) ++ (valuesOf i.methods).filterMap (·.exposed) ++
    (valuesOf i.properties).filterMap (·.exposed) ++
    (i.constructor.bind (·.exposed)).toList

/-- Every exposure in a graph. -/
def Graph.exposures (g : Graph) : List Exposure :=
  (valuesOf g.callbackInterfaces ++ valuesOf g.interfaces ++ valuesOf g.mixins ++
    g.namespaces.getD []).flatMap (·.exposures)

/-- Every value in an interface: those of its constants. -/
def Interface.literals (i : Interface) : List Json :=
  (valuesOf i.constants).filterMap (·.value)

/-- Every value in a graph: those of constants, and the default values of members. -/
def Graph.literals (g : Graph) : List Json :=
  (valuesOf g.callbackInterfaces ++ valuesOf g.interfaces ++ valuesOf g.mixins ++
    g.namespaces.getD []).flatMap (·.literals) ++ (valuesOf g.dictionaries).flatMap (·.literals)

theorem Interface.forall_mem_exposures {i : Interface} {P : Exposure → Prop} :
    (∀ e ∈ i.exposures, P e) ↔
      (∀ e ∈ i.exposed, P e) ∧ (∀ e ∈ i.overrideExposed, P e) ∧
      (∀ name c, lookup? i.constants name = some c → ∀ e ∈ c.exposed, P e) ∧
      (∀ name m, lookup? i.methods name = some m → ∀ e ∈ m.exposed, P e) ∧
      (∀ name p, lookup? i.properties name = some p → ∀ e ∈ p.exposed, P e) ∧
      ∀ c ∈ i.constructor, ∀ e ∈ c.exposed, P e := by
  have hconstructor : (∀ e, i.constructor.bind (·.exposed) = some e → P e) ↔
      ∀ c, i.constructor = some c → ∀ e, c.exposed = some e → P e := by
    cases i.constructor <;> simp
  simp only [exposures, List.forall_mem_append, List.forall_mem_filterMap, forall_mem_valuesOf,
    Option.mem_toList, Option.mem_def, hconstructor, and_assoc]

theorem Interface.forall_mem_literals {i : Interface} {P : Json → Prop} :
    (∀ j ∈ i.literals, P j) ↔
      ∀ name c, lookup? i.constants name = some c → ∀ j ∈ c.value, P j := by
  simp only [literals, List.forall_mem_filterMap, forall_mem_valuesOf, Option.mem_def]

/-- What holds of everything that is built as an interface is holds in each collection of a graph. -/
theorem Graph.forall_mem_interfaces {g : Graph} {Q : Interface → Prop} :
    (∀ i ∈ valuesOf g.callbackInterfaces ++ valuesOf g.interfaces ++ valuesOf g.mixins ++
        g.namespaces.getD [], Q i) ↔
      (∀ name i, lookup? g.callbackInterfaces name = some i → Q i) ∧
      (∀ name i, lookup? g.interfaces name = some i → Q i) ∧
      (∀ name i, lookup? g.mixins name = some i → Q i) ∧
      ∀ items ∈ g.namespaces, ∀ i ∈ items, Q i := by
  have hnamespaces : (∀ i ∈ g.namespaces.getD [], Q i) ↔
      ∀ items ∈ g.namespaces, ∀ i ∈ items, Q i := by
    cases g.namespaces <;> simp
  simp only [List.forall_mem_append, forall_mem_valuesOf, hnamespaces, and_assoc]

theorem Graph.forall_mem_exposures {g : Graph} {P : Exposure → Prop} :
    (∀ e ∈ g.exposures, P e) ↔
      (∀ name i, lookup? g.callbackInterfaces name = some i → ∀ e ∈ i.exposures, P e) ∧
      (∀ name i, lookup? g.interfaces name = some i → ∀ e ∈ i.exposures, P e) ∧
      (∀ name i, lookup? g.mixins name = some i → ∀ e ∈ i.exposures, P e) ∧
      ∀ items ∈ g.namespaces, ∀ i ∈ items, ∀ e ∈ i.exposures, P e := by
  rw [exposures, List.forall_mem_flatMap, Graph.forall_mem_interfaces]

theorem Graph.forall_mem_literals {g : Graph} {P : Json → Prop} :
    (∀ j ∈ g.literals, P j) ↔
      (∀ name i, lookup? g.callbackInterfaces name = some i → ∀ j ∈ i.literals, P j) ∧
      (∀ name i, lookup? g.interfaces name = some i → ∀ j ∈ i.literals, P j) ∧
      (∀ name i, lookup? g.mixins name = some i → ∀ j ∈ i.literals, P j) ∧
      (∀ items ∈ g.namespaces, ∀ i ∈ items, ∀ j ∈ i.literals, P j) ∧
      ∀ name d, lookup? g.dictionaries name = some d → ∀ j ∈ d.literals, P j := by
  rw [literals, List.forall_mem_append, List.forall_mem_flatMap, List.forall_mem_flatMap,
    Graph.forall_mem_interfaces, forall_mem_valuesOf]
  simp only [and_assoc]

/-! ## Interfaces -/

/-- The keys of the fields of an interface. -/
def Interface.keys : List String :=
  ["name", "extends", "comment", "constants", "methods", "properties", "constructor", "exposed",
    "override-exposed", "implements", "iterator", "deprecated"]

/-- An interface as it is read. -/
structure Interface.Tidy (i : Interface) : Prop where
  constants : ∀ name c, lookup? i.constants name = some c → c.Tidy
  methods : ∀ name m, lookup? i.methods name = some m → m.Tidy
  properties : ∀ name p, lookup? i.properties name = some p → p.Tidy
  constructor : ∀ c ∈ i.constructor, c.Tidy
  iterator : ∀ d ∈ i.iterator, d.Tidy
  extra : i.extra.Beside Interface.keys

theorem Interface.tidy_of_ofJson : Yields Interface.ofJson Interface.Tidy := by
  intro j i h
  simp only [Interface.ofJson, bind_eq_ok_iff, pure_eq_ok_iff] at h
  obtain ⟨fields, -, _, -, constants, hconstants, constructor, hconstructor, _, -, _, -, _, -, _, -,
    iterator, hiterator, methods, hmethods, _, -, _, -, properties, hproperties, rfl⟩ := h
  exact ⟨Constant.tidy_of_ofJson.collection hconstants, Method.tidy_of_ofJson.collection hmethods,
    Property.tidy_of_ofJson.collection hproperties, Constructor.tidy_of_ofJson.optional hconstructor,
    IteratorDecl.tidy_of_ofJson.optional hiterator, Extra.beside_rest _ fields⟩

theorem Interface.ne_null_of_ofJson : Yields Interface.ofJson fun i => ∀ j ∈ i.literals, j ≠ .null := by
  intro j i h
  simp only [Interface.ofJson, bind_eq_ok_iff, pure_eq_ok_iff] at h
  obtain ⟨fields, -, _, -, constants, hconstants, _, -, _, -, _, -, _, -, _, -, _, -, _, -, _, -, _, -,
    _, -, rfl⟩ := h
  exact Interface.forall_mem_literals.2 (Constant.ne_null_of_ofJson.collection hconstants)

/-- No exposure in an interface has a context with a blank. -/
structure Interface.Plain (i : Interface) : Prop where
  constants : ∀ name c, lookup? i.constants name = some c → ∀ e ∈ c.exposed, e.Plain
  methods : ∀ name m, lookup? i.methods name = some m → ∀ e ∈ m.exposed, e.Plain
  properties : ∀ name p, lookup? i.properties name = some p → ∀ e ∈ p.exposed, e.Plain
  constructor : ∀ c ∈ i.constructor, ∀ e ∈ c.exposed, e.Plain
  exposed : ∀ e ∈ i.exposed, e.Plain
  overrideExposed : ∀ e ∈ i.overrideExposed, e.Plain

theorem Interface.plain_of_exposures {i : Interface} (h : ∀ e ∈ i.exposures, e.Plain) : i.Plain := by
  obtain ⟨hown, hoverride, hconstants, hmethods, hproperties, hconstructor⟩ :=
    Interface.forall_mem_exposures.1 h
  exact ⟨hconstants, hmethods, hproperties, hconstructor, hown, hoverride⟩

theorem Interface.restores {i : Interface} (h : i.Tidy) (hplain : i.Plain)
    (hliterals : ∀ j ∈ i.literals, j ≠ .null) :
    Restores Interface.ofJson (Interface.toJson .ascending) i := by
  refine ⟨nofun, ?_⟩
  simp only [Interface.ofJson, bind_eq_ok_iff, pure_eq_ok_iff]
  refine ⟨_, rfl, i.comment, optional_written (fun s _ => restores_text s) ?_, i.constants,
    collection_written (fun n c hc => Constant.restores (h.constants n c hc)
      (hplain.constants n c hc) (Interface.forall_mem_literals.1 hliterals n c hc)) ?_, i.constructor,
    optional_written (fun c hc => Constructor.restores (h.constructor c hc)
      (hplain.constructor c hc)) ?_, i.deprecated, flag_written ?_, i.exposed,
    optional_written (fun e he => restores_exposure (hplain.exposed e he)) ?_, i.parent,
    optional_written (fun s _ => restores_text s) ?_, i.implements,
    optional_written (fun names _ => restores_list fun s _ => restores_text s) ?_, i.iterator,
    optional_written (fun d hd => IteratorDecl.restores (h.iterator d hd)) ?_, i.methods,
    collection_written (fun n m hm => Method.restores (h.methods n m hm)
      (hplain.methods n m hm)) ?_, i.name, orElse_written (restores_text _) ?_, i.overrideExposed,
    optional_written (fun e he => restores_exposure (hplain.overrideExposed e he)) ?_, i.properties,
    collection_written (fun n p hp => Property.restores (h.properties n p hp)
      (hplain.properties n p hp)) ?_,
    congrArg (fun extra => { i with extra }) (rest_written h.extra ?keys)⟩
  case keys => simp [Interface.keys]
  all_goals
    rw [get?_written h.extra (by decide)]
    simp

/-! ## Graphs -/

/-- A graph as it is read: extra fields stand beside the fields, its own and those of what it holds. -/
structure Graph.Tidy (g : Graph) : Prop where
  callbackFunctions : ∀ name f, lookup? g.callbackFunctions name = some f → f.Tidy
  callbackInterfaces : ∀ name i, lookup? g.callbackInterfaces name = some i → i.Tidy
  dictionaries : ∀ name d, lookup? g.dictionaries name = some d → d.Tidy
  enums : ∀ name e, lookup? g.enums name = some e → e.Tidy
  interfaces : ∀ name i, lookup? g.interfaces name = some i → i.Tidy
  mixins : ∀ name i, lookup? g.mixins name = some i → i.Tidy
  namespaces : ∀ items ∈ g.namespaces, ∀ i ∈ items, i.Tidy
  typedefs : ∀ items ∈ g.typedefs, ∀ t ∈ items, t.Tidy
  extra : g.extra.Beside Graph.fieldKeys

/-- No exposure in a graph has a context with a blank. -/
structure Graph.Plain (g : Graph) : Prop where
  callbackInterfaces : ∀ name i, lookup? g.callbackInterfaces name = some i → i.Plain
  interfaces : ∀ name i, lookup? g.interfaces name = some i → i.Plain
  mixins : ∀ name i, lookup? g.mixins name = some i → i.Plain
  namespaces : ∀ items ∈ g.namespaces, ∀ i ∈ items, i.Plain

theorem Graph.plain_of_exposures {g : Graph} (h : ∀ e ∈ g.exposures, e.Plain) : g.Plain := by
  obtain ⟨hcallbacks, hinterfaces, hmixins, hnamespaces⟩ := Graph.forall_mem_exposures.1 h
  exact ⟨fun name i hi => Interface.plain_of_exposures (hcallbacks name i hi),
    fun name i hi => Interface.plain_of_exposures (hinterfaces name i hi),
    fun name i hi => Interface.plain_of_exposures (hmixins name i hi),
    fun items hitems i hi => Interface.plain_of_exposures (hnamespaces items hitems i hi)⟩

theorem typedefs_tidy_of_typedefsOfJson :
    Yields typedefsOfJson fun items => ∀ t ∈ items, t.Tidy :=
  Yields.record fun _ _ h => Typedef.tidy_of_ofJson.list.orElse (by simp) h

theorem Graph.tidy_of_ofRawJson : Yields Graph.ofRawJson Graph.Tidy := by
  intro j g h
  simp only [Graph.ofRawJson, bind_eq_ok_iff, pure_eq_ok_iff] at h
  obtain ⟨fields, -, functions, hfunctions, callbacks, hcallbacks, dictionaries, hdictionaries, enums,
    henums, interfaces, hinterfaces, mixins, hmixins, namespaces, hnamespaces, typedefs, htypedefs,
    rfl⟩ := h
  exact ⟨CallbackFunction.tidy_of_ofJson.collection hfunctions,
    Interface.tidy_of_ofJson.collection hcallbacks,
    Dictionary.tidy_of_ofJson.collection hdictionaries,
    Enumeration.tidy_of_ofJson.collection henums,
    Interface.tidy_of_ofJson.collection hinterfaces, Interface.tidy_of_ofJson.collection hmixins,
    Interface.tidy_of_ofJson.list.optional hnamespaces,
    typedefs_tidy_of_typedefsOfJson.optional htypedefs, Extra.beside_rest _ fields⟩

theorem Graph.ne_null_of_ofRawJson : Yields Graph.ofRawJson fun g => ∀ j ∈ g.literals, j ≠ .null := by
  intro j g h
  simp only [Graph.ofRawJson, bind_eq_ok_iff, pure_eq_ok_iff] at h
  obtain ⟨fields, -, _, -, callbacks, hcallbacks, dictionaries, hdictionaries, _, -, interfaces,
    hinterfaces, mixins, hmixins, namespaces, hnamespaces, _, -, rfl⟩ := h
  exact Graph.forall_mem_literals.2 ⟨Interface.ne_null_of_ofJson.collection hcallbacks,
    Interface.ne_null_of_ofJson.collection hinterfaces, Interface.ne_null_of_ofJson.collection hmixins,
    Interface.ne_null_of_ofJson.list.optional hnamespaces,
    Dictionary.ne_null_of_ofJson.collection hdictionaries⟩

theorem restores_typedefs {items : List Typedef} (h : ∀ t ∈ items, t.Tidy) :
    Restores typedefsOfJson (typedefsToJson .ascending) items := by
  have hread : orElse [] (list Typedef.ofJson)
      [("typedef", .arr (items.map (Typedef.toJson .ascending)))] "typedef" = .ok items :=
    orElse_written (restores_list fun t ht => Typedef.restores (h t ht)) rfl
  exact ⟨nofun, hread⟩

/-- **A tidy graph comes back from its written form** as it is, under the names that it has. -/
theorem Graph.ofRawJson_toValue {g : Graph} (h : g.Tidy) (hplain : g.Plain)
    (hliterals : ∀ j ∈ g.literals, j ≠ .null) : Graph.ofRawJson g.toValue = .ok g := by
  obtain ⟨hcallbacks, hinterfaces, hmixins, hnamespaces, hdictionaries⟩ :=
    Graph.forall_mem_literals.1 hliterals
  simp only [Graph.ofRawJson, bind_eq_ok_iff, pure_eq_ok_iff]
  refine ⟨_, rfl, g.callbackFunctions,
    collection_written (fun n f hf => CallbackFunction.restores (h.callbackFunctions n f hf)) ?_,
    g.callbackInterfaces,
    collection_written (fun n i hi => Interface.restores (h.callbackInterfaces n i hi)
      (hplain.callbackInterfaces n i hi) (hcallbacks n i hi)) ?_, g.dictionaries,
    collection_written (fun n d hd => Dictionary.restores (h.dictionaries n d hd)
      (hdictionaries n d hd)) ?_, g.enums,
    collection_written (fun n e he => Enumeration.restores (h.enums n e he)) ?_, g.interfaces,
    collection_written (fun n i hi => Interface.restores (h.interfaces n i hi)
      (hplain.interfaces n i hi) (hinterfaces n i hi)) ?_, g.mixins,
    collection_written (fun n i hi => Interface.restores (h.mixins n i hi)
      (hplain.mixins n i hi) (hmixins n i hi)) ?_, g.namespaces,
    optional_written (fun items hitems => restores_list fun i hi =>
      Interface.restores (h.namespaces items hitems i hi) (hplain.namespaces items hitems i hi)
        (hnamespaces items hitems i hi)) ?_,
    g.typedefs, optional_written (fun items hitems => restores_typedefs (h.typedefs items hitems)) ?_,
    congrArg (fun extra => { g with extra }) (rest_written h.extra ?keys)⟩
  case keys => simp [Graph.fieldKeys]
  all_goals
    rw [get?_written h.extra (by decide)]
    simp

end IdlDecls
