import IdlDecls.Integration.Integrate
import IdlDecls.Proofs.Merge.Members

/-!
# Lists that every merge joins

The overloads of constructors and callback functions, the types of iterators and the values of
enumerations are joined without asking the policy, so a merge that ends well has joined them under
`reject` as under `override` (`Graph.listsJoined_of_merge`). Additions are no exception: they make
existing lists longer where they touch no other thing that exists
(`gateGraph_lists_grow`).
-/

namespace IdlDecls

open Merge Merging

variable {α β : Type}

/-! ## Definitions with lists -/

/-- The constructor of the interface with a name. -/
def Graph.constructor? (g : Graph) (name : String) : Option Constructor :=
  (g.interface? name).bind (·.constructor)

/-- The iterator declaration of the interface with a name. -/
def Graph.iterator? (g : Graph) (name : String) : Option IteratorDecl :=
  (g.interface? name).bind (·.iterator)

/-- The callback function with a name. -/
def Graph.callbackFunction? (g : Graph) (name : String) : Option CallbackFunction :=
  lookup? g.callbackFunctions name

/-- Where both sides of a merge have a list, the result has the list of the base and behind it that of
the addition, of which an enumeration leaves out the values that it has. -/
structure Graph.ListsJoined (base addition result : Graph) : Prop where
  constructors : ∀ name, Joined
    (fun old new merged => merged.signatures = old.signatures ++ new.signatures)
    (base.constructor? name) (addition.constructor? name) (result.constructor? name)
  iterators : ∀ name, Joined (fun old new merged => merged.types = old.types ++ new.types)
    (base.iterator? name) (addition.iterator? name) (result.iterator? name)
  enums : ∀ name, Joined (fun old new merged => merged.values = joinedNames old.values new.values)
    (base.enum? name) (addition.enum? name) (result.enum? name)
  callbackFunctions : ∀ name, Joined
    (fun old new merged => merged.signatures = old.signatures ++ new.signatures)
    (base.callbackFunction? name) (addition.callbackFunction? name) (result.callbackFunction? name)

/-! ## Merging -/

/-- **No policy keeps lists from growing.** -/
theorem Graph.listsJoined_of_merge {policy : MergePolicy} {base addition result : Graph}
    (h : base.merge policy addition = .ok result) : Graph.ListsJoined base addition result := by
  have hm := Graph.merge_eq_ok_iff.1 h
  have hinterface :=
    joined_lookup?_collection (fun _ _ _ => Interface.merge_eq_ok_iff.1) hm.interfaces
  refine ⟨fun name => (hinterface name).bind fun _ _ _ hi => ?_,
    fun name => (hinterface name).bind fun _ _ _ hi => ?_, ?_, ?_⟩
  · exact (optional_eq_ok_iff.1 hi.constructor).mono fun _ _ _ hc =>
      (Constructor.merge_eq_ok_iff.1 hc).signatures
  · exact (optional_eq_ok_iff.1 hi.iterator).mono fun _ _ _ hc =>
      (IteratorDecl.merge_eq_ok_iff.1 hc).types
  · refine joined_lookup?_collection (fun old new merged he => ?_) hm.enums
    rw [(Enumeration.merge_eq_ok_iff.1 he).values, unionNames_eq]
  · exact joined_lookup?_collection
      (fun _ _ _ hc => (CallbackFunction.merge_eq_ok_iff.1 hc).signatures) hm.callbackFunctions

/-! ## Additions -/

theorem joinedNames_eq_self_iff {base addition : List String} :
    joinedNames base addition = base ↔ ∀ name ∈ addition, name ∈ base := by
  have hnil : ∀ l : List String, l.eraseDups = [] ↔ l = [] := by
    intro l
    cases l with
    | nil => simp
    | cons => simp [List.eraseDups_cons]
  rw [joinedNames, List.append_right_eq_self, hnil, List.filter_eq_nil_iff]
  simp

/-- If joining two values leaves a list the same exactly for a new value that is `idle`, then a join
leaves it the same exactly if no other value comes to it. -/
theorem Joined.list_eq_iff {R : α → α → α → Prop} {list : α → List β} {idle : α → α → Prop}
    (hR : ∀ old new merged, R old new merged → (list merged = list old ↔ idle old new))
    {base addition result : Option α} (h : Joined R base addition result) :
    ∀ old ∈ base, ∃ merged ∈ result, (list merged = list old ↔ ∀ new ∈ addition, idle old new) := by
  cases h with
  | base => exact fun old hold => ⟨old, hold, by simp⟩
  | addition => nofun
  | both h =>
    rintro _ ⟨⟩
    exact ⟨_, rfl, by simpa using hR _ _ _ h⟩

/-- What is left of the lists that were there before an addition: each is the same exactly if the
addition has nothing new for it. -/
structure Graph.ListsKept (g additions result : Graph) : Prop where
  constructors : ∀ name, ∀ old ∈ g.constructor? name, ∃ new ∈ result.constructor? name,
    (new.signatures = old.signatures ↔
      ∀ added ∈ additions.constructor? name, added.signatures = [])
  iterators : ∀ name, ∀ old ∈ g.iterator? name, ∃ new ∈ result.iterator? name,
    (new.types = old.types ↔ ∀ added ∈ additions.iterator? name, added.types = [])
  enums : ∀ name, ∀ old ∈ g.enum? name, ∃ new ∈ result.enum? name,
    (new.values = old.values ↔
      ∀ added ∈ additions.enum? name, ∀ value ∈ added.values, value ∈ old.values)
  callbackFunctions : ∀ name, ∀ old ∈ g.callbackFunction? name,
    ∃ new ∈ result.callbackFunction? name, (new.signatures = old.signatures ↔
      ∀ added ∈ additions.callbackFunction? name, added.signatures = [])

/-- **Additions join lists as well**, so a list that exists stays the same exactly if the addition has
nothing new for it. -/
theorem Graph.mergeAdditions_lists {g additions result : Graph}
    (h : g.mergeAdditions additions = .ok result) : Graph.ListsKept g additions result := by
  have hjoined := Graph.listsJoined_of_merge (mapError_eq_ok_iff.1 h)
  refine ⟨fun name => (hjoined.constructors name).list_eq_iff fun old new merged hm => ?_,
    fun name => (hjoined.iterators name).list_eq_iff fun old new merged hm => ?_,
    fun name => (hjoined.enums name).list_eq_iff fun old new merged hm => ?_,
    fun name => (hjoined.callbackFunctions name).list_eq_iff fun old new merged hm => ?_⟩
  · rw [hm, List.append_right_eq_self]
  · rw [hm, List.append_right_eq_self]
  · rw [hm, joinedNames_eq_self_iff]
  · rw [hm, List.append_right_eq_self]

/-- A graph with a list of each kind. -/
def gateGraph : Graph where
  interfaces := some (.ofList [("Gate", {
    name := "Gate"
    constructor := some { signatures := [{}] }
    iterator := some { kind := "iterable", types := [⟨some (.named "long"), none, none⟩] } })])
  enums := some (.ofList [("Side", { name := "Side", values := ["left"] })])
  callbackFunctions := some (.ofList [("Opened", { name := "Opened", signatures := [{}] })])

/-- Additions to the lists of `gateGraph`, and to nothing else. -/
def gateAdditions : Graph where
  interfaces := some (.ofList [("Gate", {
    name := "Gate"
    constructor := some { signatures := [{ deprecated := some true }] }
    iterator := some { types := [⟨some (.named "double"), none, none⟩] } })])
  enums := some (.ofList [("Side", { name := "Side", values := ["right"] })])
  callbackFunctions := some (.ofList [("Opened", {
    name := "Opened", signatures := [{ deprecated := some true }] })])

/-- The additions are merged without a conflict, and every list of the graph is longer than before. -/
theorem gateGraph_lists_grow :
    ∃ result, gateGraph.mergeAdditions gateAdditions = .ok result ∧
      (gateGraph.constructor? "Gate").map (·.signatures.length) = some 1 ∧
      (result.constructor? "Gate").map (·.signatures.length) = some 2 ∧
      (gateGraph.iterator? "Gate").map (·.types.length) = some 1 ∧
      (result.iterator? "Gate").map (·.types.length) = some 2 ∧
      (gateGraph.enum? "Side").map (·.values) = some ["left"] ∧
      (result.enum? "Side").map (·.values) = some ["left", "right"] ∧
      (gateGraph.callbackFunction? "Opened").map (·.signatures.length) = some 1 ∧
      (result.callbackFunction? "Opened").map (·.signatures.length) = some 2 ∧
      Graph.ListsKept gateGraph gateAdditions result := by
  have h : gateGraph.mergeAdditions gateAdditions = .ok
      { interfaces := some (.ofList [("Gate", {
          name := "Gate"
          constructor := some { signatures := [{}, { deprecated := some true }] }
          iterator := some {
            kind := "iterable"
            types := [⟨some (.named "long"), none, none⟩, ⟨some (.named "double"), none, none⟩] } })])
        enums := some (.ofList [("Side", { name := "Side", values := ["left", "right"] })])
        callbackFunctions := some (.ofList [("Opened", {
          name := "Opened", signatures := [{}, { deprecated := some true }] })]) } := by
    decide +kernel
  exact ⟨_, h, by decide +kernel, by decide +kernel, by decide +kernel, by decide +kernel,
    by decide +kernel, by decide +kernel, by decide +kernel, by decide +kernel,
    Graph.mergeAdditions_lists h⟩

end IdlDecls
