import IdlDecls.Proofs.Keyed.Joined
import IdlDecls.View.Extract

/-!
# What a view selects

A context that is not blank has a view (`view_eq_ok`). Where interfaces go by their keys, the
view has an interface exactly where the graph has one that is exposed in the context or known, and
holds it as the context sees it (`get?_viewInterfaces`). An interface all of whose members are
visible is seen as it is (`scopedTo_eq_self`).
-/

namespace IdlDecls

/-! ## Scoped interfaces -/

@[simp] theorem Interface.name_scopedTo (context : String) (inherits : Bool) (i : Interface) :
    (i.scopedTo context inherits).name = i.name := rfl

/-- A context that sees every member sees the whole interface. -/
theorem Interface.scopedTo_eq_self {context : String} {inherits : Bool} {i : Interface}
    (hconstants : ∀ name c, i.constant? name = some c →
      isMemberVisible context (if inherits then i.exposed else none) c.exposed = true)
    (hmethods : ∀ name m, i.method? name = some m →
      isMemberVisible context (if inherits then i.exposed else none) m.exposed = true)
    (hproperties : ∀ name p, i.property? name = some p →
      isMemberVisible context (if inherits then i.exposed else none) p.exposed = true)
    (hconstructor : ∀ c, i.constructor = some c →
      isMemberVisible context (if inherits then i.exposed else none) c.exposed = true) :
    i.scopedTo context inherits = i := by
  obtain ⟨name, parent, comment, constants, methods, properties, constructor, exposed, _, _, _, _, _⟩ := i
  simp only [constant?, method?, property?] at hconstants hmethods hproperties hconstructor
  simp only [scopedTo, mk.injEq, true_and, and_true]
  refine ⟨?_, ?_, ?_, ?_⟩
  · cases constants with
    | none => rfl
    | some m => exact congrArg some (Keyed.filter_eq_self hconstants)
  · cases methods with
    | none => rfl
    | some m => exact congrArg some (Keyed.filter_eq_self hmethods)
  · cases properties with
    | none => rfl
    | some m => exact congrArg some (Keyed.filter_eq_self hproperties)
  · cases constructor with
    | none => rfl
    | some c => simp [Option.filter, hconstructor c rfl]

/-! ## Selected interfaces -/

/-- What is selected from entries that go by their keys, and keeps their names, is found under the
same keys. -/
theorem get?_ofList_filterMap {α β : Type} {name : α → String} {nameOf : β → String}
    {f : α → Option β} {c : Option (Keyed α)} (hnames : NamesAreKeys name c)
    (hf : ∀ x y, f x = some y → nameOf y = name x) (key : String) :
    (Keyed.ofList ((valuesOf c).filterMap fun x => (f x).map fun y => (nameOf y, y))).get? key =
      (lookup? c key).bind f := by
  have hmem : ∀ e : String × β, e ∈ (valuesOf c).filterMap (fun x =>
      (f x).map fun y => (nameOf y, y)) ↔ ∃ x, lookup? c e.1 = some x ∧ f x = some e.2 := by
    rintro ⟨k, y⟩
    simp only [List.mem_filterMap, mem_valuesOf, Option.map_eq_some_iff, Prod.mk.injEq]
    constructor
    · rintro ⟨x, ⟨key, hx⟩, y, hy, rfl, rfl⟩
      have hkey : key = nameOf y := (hnames key x hx).symm.trans (hf x y hy).symm
      exact ⟨x, hkey ▸ hx, hy⟩
    · rintro ⟨x, hx, hy⟩
      exact ⟨x, ⟨k, hx⟩, y, hy, (hf x y hy).trans (hnames k x hx), rfl⟩
  apply Option.ext
  intro y
  rw [Keyed.get?_ofList_eq_some_iff, hmem, Option.bind_eq_some_iff]
  -- entries that share a key come from one value
  rintro ⟨k, a⟩ ha ⟨k', b⟩ hb (rfl : k = k')
  obtain ⟨x, hx, hxa⟩ := (hmem _).1 ha
  obtain ⟨x', hx', hxb⟩ := (hmem _).1 hb
  simp only at hx hx' hxa hxb
  rw [hx] at hx'
  cases hx'
  rw [hxa] at hxb
  exact Option.some.inj hxb

namespace Graph

/-- Which interfaces are selected, and as what. -/
theorem selectInterface?_eq_some_iff {context : String} {known : List String} {i j : Interface} :
    selectInterface? context known i = some j ↔
      (isExposedIn i.exposed context = true ∨ i.name ∈ known) ∧
        i.scopedTo context (isExposedIn i.exposed context) = j := by
  simp only [selectInterface?, List.contains_eq_mem, Bool.or_eq_true, decide_eq_true_eq,
    Option.ite_none_right_eq_some, Option.some.injEq]

/-- Which namespaces are selected, and as what. -/
theorem selectNamespace?_eq_some_iff {context : String} {known : List String} {n m : Interface} :
    selectNamespace? context known n = some m ↔
      (isExposedIn n.exposed context = true ∨ n.name ∈ known) ∧ n.scopedTo context true = m := by
  simp only [selectNamespace?, List.contains_eq_mem, Bool.or_eq_true, decide_eq_true_eq,
    Option.ite_none_right_eq_some, Option.some.injEq]

theorem name_of_selectInterface? {context : String} {known : List String} {i j : Interface}
    (h : selectInterface? context known i = some j) : j.name = i.name := by
  obtain ⟨-, rfl⟩ := selectInterface?_eq_some_iff.1 h
  rfl

theorem name_of_selectNamespace? {context : String} {known : List String} {n m : Interface}
    (h : selectNamespace? context known n = some m) : m.name = n.name := by
  obtain ⟨-, rfl⟩ := selectNamespace?_eq_some_iff.1 h
  rfl

/-- **Interfaces that go by their keys are selected under their keys.** -/
theorem get?_viewInterfaces {g : Graph} (hnames : NamesAreKeys Interface.name g.interfaces)
    (context : String) (known : List String) (key : String) :
    (g.viewInterfaces context known).get? key =
      (g.interface? key).bind (selectInterface? context known) :=
  get?_ofList_filterMap hnames (fun _ _ h => name_of_selectInterface? h) key

/-- The mixins of a graph that go by their keys stay under their keys. -/
theorem get?_scopedMixins {g : Graph} (hnames : NamesAreKeys Interface.name g.mixins)
    (context key : String) :
    (g.scopedMixins context).get? key = (g.mixin? key).map (·.scopedTo context true) := by
  have hselect : g.scopedMixins context = .ofList ((valuesOf g.mixins).filterMap fun m =>
      (some (m.scopedTo context true)).map fun m => (m.name, m)) := by
    simp [scopedMixins]
  rw [hselect, get?_ofList_filterMap (f := fun m => some (m.scopedTo context true)) hnames]
  · rw [Option.map_eq_bind]
    rfl
  · rintro i j h
    cases h
    rfl

/-! ## Views -/

@[simp] theorem lookup?_unlessEmpty {α : Type} (m : Keyed α) (key : String) :
    lookup? m.unlessEmpty key = m.get? key := by
  obtain ⟨l, hl⟩ := m
  cases l <;> rfl

/-- The parts of the view of a context that is not blank. -/
def viewParts (g : Graph) (context : String) (known : List String) : Graph where
  interfaces := (g.viewInterfaces context known).unlessEmpty
  namespaces := listUnlessEmpty (g.viewNamespaces context known)
  mixins := keepReached (g.reachedNames context known) (some (g.scopedMixins context))
  callbackInterfaces := keepReached (g.reachedNames context known) g.callbackInterfaces
  dictionaries := keepReached (g.reachedNames context known) g.dictionaries
  enums := keepReached (g.reachedNames context known) g.enums
  callbackFunctions := keepReached (g.reachedNames context known) g.callbackFunctions
  typedefs := g.typedefs.bind fun typedefs =>
    listUnlessEmpty (typedefs.filter fun t => (g.reachedNames context known).contains t.name)
  extra := g.extra

theorem view_eq_ok (g : Graph) {context : String} (known : List String)
    (h : Text.blank context = false) : g.view context known = .ok (g.viewParts context known) := by
  simp only [view, h, Bool.false_eq_true, ↓reduceIte]
  rfl

theorem interface?_viewParts (g : Graph) (context : String) (known : List String) (key : String) :
    (g.viewParts context known).interface? key = (g.viewInterfaces context known).get? key := by
  simp [interface?, viewParts]

/-- A view has the interfaces that are selected. -/
theorem interface?_viewParts_eq_bind {g : Graph} (hnames : NamesAreKeys Interface.name g.interfaces)
    (context : String) (known : List String) (key : String) :
    (g.viewParts context known).interface? key =
      (g.interface? key).bind (selectInterface? context known) := by
  rw [interface?_viewParts, get?_viewInterfaces hnames]

end Graph

end IdlDecls
