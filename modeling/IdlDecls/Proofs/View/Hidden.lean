import IdlDecls.Proofs.View.Kept
import IdlDecls.Proofs.View.Scoped

/-!
# Hidden members in a view

A member with an exposure of its own is hidden from the contexts that it does not name. The view of a
context holds its interfaces, its namespaces and its mixins without their hidden members, but a callback
interface that it reaches is held as the graph has it. So a view shows a member that its context should
not see exactly if it reaches a callback interface with such a member (`Graph.view_leaks_iff`). Nothing
is asked of the names here: which key a definition is held under does not matter to its members.
-/

namespace IdlDecls

/-! ## Hidden members -/

/-- An exposure of contexts among which a context is not; without contexts nothing is hidden. -/
def Exposure.Hides (own : Option Exposure) (context : String) : Prop :=
  (nonempty? own).isSome ∧ isExposedIn own context = false

instance (own : Option Exposure) (context : String) : Decidable (Exposure.Hides own context) :=
  inferInstanceAs (Decidable (_ ∧ _))

/-- A member of an interface, or its constructor, is hidden from a context by its own exposure. -/
inductive Interface.HasHidden (i : Interface) (context : String) : Prop where
  | constant {name : String} {c : Constant} :
      i.constant? name = some c → Exposure.Hides c.exposed context → HasHidden i context
  | method {name : String} {m : Method} :
      i.method? name = some m → Exposure.Hides m.exposed context → HasHidden i context
  | property {name : String} {p : Property} :
      i.property? name = some p → Exposure.Hides p.exposed context → HasHidden i context
  | constructor {c : Constructor} :
      i.constructor = some c → Exposure.Hides c.exposed context → HasHidden i context

/-- A view of a context holds a member that is hidden from it. -/
inductive Graph.Leaks (v : Graph) (context : String) : Prop where
  | interface {key : String} {i : Interface} :
      v.interface? key = some i → i.HasHidden context → Leaks v context
  | mixin {key : String} {m : Interface} :
      v.mixin? key = some m → m.HasHidden context → Leaks v context
  | namespace {n : Interface} :
      n ∈ v.namespaces.getD [] → n.HasHidden context → Leaks v context
  | callbackInterface {key : String} {i : Interface} :
      lookup? v.callbackInterfaces key = some i → i.HasHidden context → Leaks v context

/-- A member that is seen is not hidden: its own exposure decides before that of its interface. -/
theorem not_hides_of_seenUnder {context : String} {parent own : Option Exposure}
    (h : Exposure.SeenUnder context parent own) : ¬ Exposure.Hides own context := by
  rintro ⟨hown, hhidden⟩
  rcases h with ⟨-, hvisible⟩ | ⟨hnone, -, -⟩ | ⟨hnone, -⟩
  · exact Bool.false_ne_true (hhidden.symm.trans hvisible)
  · rw [hnone] at hown
    cases hown
  · rw [hnone] at hown
    cases hown

/-- **No member that is left is hidden**, whether or not members inherit an exposure. -/
theorem Interface.not_hasHidden_scopedTo (context : String) (inherits : Bool) (i : Interface) :
    ¬ (i.scopedTo context inherits).HasHidden context := by
  have hseen := i.restricts_scopedTo context inherits
  rintro (⟨hc, hhides⟩ | ⟨hm, hhides⟩ | ⟨hp, hhides⟩ | ⟨hc, hhides⟩)
  · exact not_hides_of_seenUnder ((hseen.constant _ _).1 hc).2 hhides
  · exact not_hides_of_seenUnder ((hseen.method _ _).1 hm).2 hhides
  · exact not_hides_of_seenUnder ((hseen.property _ _).1 hp).2 hhides
  · exact not_hides_of_seenUnder ((hseen.constructor _).1 hc).2 hhides

/-! ## Views -/

namespace Graph

section View

variable {g : Graph} {context : String} {known : List String}

/-- An entry of a collection that is made of a list is an item of the list. -/
theorem mem_of_get?_ofList {α : Type} {l : List (String × α)} {key : String} {value : α}
    (h : (Keyed.ofList l).get? key = some value) : (key, value) ∈ l := by
  rw [Keyed.get?_ofList] at h
  exact List.mem_reverse.1 (Entries.mem_of_get? h)

/-- The interfaces of a view are selected ones of the graph, also where names are no keys. -/
theorem exists_of_interface?_viewParts {key : String} {j : Interface}
    (hj : (g.viewParts context known).interface? key = some j) :
    ∃ i ∈ valuesOf g.interfaces, selectInterface? context known i = some j := by
  rw [interface?_viewParts] at hj
  obtain ⟨i, hi, hselected⟩ := List.mem_filterMap.1 (mem_of_get?_ofList hj)
  obtain ⟨k, hk, heq⟩ := Option.map_eq_some_iff.1 hselected
  cases heq
  exact ⟨i, hi, hk⟩

/-- The mixins of a view are mixins of the graph as the context sees them. -/
theorem exists_of_mixin?_viewParts {key : String} {m : Interface}
    (hm : (g.viewParts context known).mixin? key = some m) :
    ∃ whole ∈ valuesOf g.mixins, m = whole.scopedTo context true := by
  rw [mixin?, viewParts, lookup?_keepReached, lookup?_some] at hm
  obtain ⟨whole, hwhole, heq⟩ := List.mem_map.1 (mem_of_get?_ofList hm.1)
  cases heq
  exact ⟨whole, hwhole, rfl⟩

theorem not_hasHidden_of_interface? {key : String} {j : Interface}
    (hj : (g.viewParts context known).interface? key = some j) : ¬ j.HasHidden context := by
  obtain ⟨i, -, hselected⟩ := exists_of_interface?_viewParts hj
  obtain ⟨-, rfl⟩ := selectInterface?_eq_some_iff.1 hselected
  exact i.not_hasHidden_scopedTo context _

theorem not_hasHidden_of_mixin? {key : String} {m : Interface}
    (hm : (g.viewParts context known).mixin? key = some m) : ¬ m.HasHidden context := by
  obtain ⟨whole, -, rfl⟩ := exists_of_mixin?_viewParts hm
  exact whole.not_hasHidden_scopedTo context true

theorem not_hasHidden_of_mem_namespaces {n : Interface}
    (hn : n ∈ (g.viewParts context known).namespaces.getD []) : ¬ n.HasHidden context := by
  rw [namespaces_viewParts] at hn
  obtain ⟨whole, -, hselected⟩ := List.mem_filterMap.1 hn
  obtain ⟨-, rfl⟩ := selectNamespace?_eq_some_iff.1 hselected
  exact whole.not_hasHidden_scopedTo context true

theorem callbackInterface?_viewParts {key : String} {i : Interface} :
    lookup? (g.viewParts context known).callbackInterfaces key = some i ↔
      lookup? g.callbackInterfaces key = some i ∧ key ∈ g.reachedNames context known :=
  lookup?_keepReached

/-- **What leaks into a view**: the hidden members of the callback interfaces that it reaches. -/
theorem leaks_viewParts_iff : (g.viewParts context known).Leaks context ↔
    ∃ key i, lookup? g.callbackInterfaces key = some i ∧ key ∈ g.reachedNames context known ∧
      i.HasHidden context := by
  constructor
  · rintro (⟨hi, hhidden⟩ | ⟨hm, hhidden⟩ | ⟨hn, hhidden⟩ | ⟨hi, hhidden⟩)
    · exact absurd hhidden (not_hasHidden_of_interface? hi)
    · exact absurd hhidden (not_hasHidden_of_mixin? hm)
    · exact absurd hhidden (not_hasHidden_of_mem_namespaces hn)
    · obtain ⟨hi, hreached⟩ := callbackInterface?_viewParts.1 hi
      exact ⟨_, _, hi, hreached, hhidden⟩
  · rintro ⟨key, i, hi, hreached, hhidden⟩
    exact .callbackInterface (callbackInterface?_viewParts.2 ⟨hi, hreached⟩) hhidden

end View

/-- **Members leak into a view through callback interfaces alone.** A context that is not blank has a
view. No interface, mixin or namespace in it holds a member that is hidden from the context, and its
callback interfaces are those of the graph that it reaches, with all of their members; so the view
leaks exactly if one of these has a hidden member. -/
theorem view_leaks_iff (g : Graph) {context : String} (hcontext : Text.blank context = false)
    (known : List String) : ∃ v, g.view context known = .ok v ∧
      (∀ key i, v.interface? key = some i → ¬ i.HasHidden context) ∧
      (∀ key m, v.mixin? key = some m → ¬ m.HasHidden context) ∧
      (∀ n ∈ v.namespaces.getD [], ¬ n.HasHidden context) ∧
      (∀ key i, lookup? v.callbackInterfaces key = some i ↔
        lookup? g.callbackInterfaces key = some i ∧ key ∈ g.reachedNames context known) ∧
      (v.Leaks context ↔ ∃ key i, lookup? g.callbackInterfaces key = some i ∧
        key ∈ g.reachedNames context known ∧ i.HasHidden context) :=
  ⟨_, view_eq_ok g known hcontext, fun _ _ => not_hasHidden_of_interface?,
    fun _ _ => not_hasHidden_of_mixin?, fun _ => not_hasHidden_of_mem_namespaces,
    fun _ _ => callbackInterface?_viewParts, leaks_viewParts_iff⟩

/-- A window sees an interface that refers to a callback interface, one of whose constants is for
workers. -/
def filterGraph : Graph where
  interfaces := some (.ofList [("Node", {
    name := "Node"
    properties := some (.ofList [
      ("filter", { name := "filter", type := ⟨some (.named "NodeFilter"), none, none⟩ })])
    exposed := some (.ofList ["Window"]) })])
  callbackInterfaces := some (.ofList [("NodeFilter", {
    name := "NodeFilter"
    constants := some (.ofList [
      ("HIDDEN", {
        name := "HIDDEN", type := ⟨some (.named "long"), none, none⟩
        exposed := some (.ofList ["Worker"]) })]) })])

/-- The constant for workers is in the view of windows. -/
theorem filterGraph_view_leaks :
    ∃ v, filterGraph.view "Window" [] = .ok v ∧ v.Leaks "Window" := by
  have hcontext : Text.blank "Window" = false := by decide +kernel
  obtain ⟨v, hv, -, -, -, -, hleaks⟩ := filterGraph.view_leaks_iff hcontext []
  refine ⟨v, hv, hleaks.2 ⟨"NodeFilter", _, rfl, ?_, ?_⟩⟩
  · -- the property of the interface leads to the callback interface
    have hmixins : IdlDecls.NamesAreKeys Interface.name filterGraph.mixins := by decide +kernel
    have hnode : (filterGraph.viewParts "Window" []).interface? "Node" =
        filterGraph.interface? "Node" := by decide +kernel
    refine (mem_reachedNames_of_link hmixins (callbackInterface_link_mem
      (show lookup? filterGraph.callbackInterfaces "NodeFilter" = some _ from rfl)) rfl).2
        (.mention (.interface hnode) (.interface hnode ?_))
    exact Interface.mem_mentions_iff.1 (by decide +kernel)
  · exact .constant (show Interface.constant? _ "HIDDEN" = some _ from rfl) (by decide +kernel)

end Graph

end IdlDecls
