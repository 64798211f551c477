import IdlDecls.Proofs.Integration.Conventions
import IdlDecls.Proofs.View.Kept

/-!
# Names and keys

A view finds definitions by their keys and searches by their names, so it needs the two to agree. They
do in the result of every run whose inputs have them agree, and in every view of it
(`integrate_named`): a removal template may take a name away, but then the key is filled in for it, and
a view has under a key only what the graph has there, with fewer members.
-/

namespace IdlDecls

/-- A name is the key that it stands under. -/
def NameIsKey (key name : String) : Prop := name = key

instance (key name : String) : Decidable (NameIsKey key name) :=
  inferInstanceAs (Decidable (name = key))

/-! ## Views -/

theorem EachEntry.filter {α : Type} {P : String → α → Prop} {entries : Option (Keyed α)}
    (h : EachEntry P entries) (p : String → α → Bool) : EachEntry P (entries.map (·.filter p)) := by
  intro key value hvalue
  cases entries with
  | none => cases hvalue
  | some m =>
    have hkept : (m.filter p).get? key = some value := hvalue
    rw [Keyed.get?_filter, Option.filter_eq_some_iff] at hkept
    exact h key value hkept.1

theorem Interface.MembersNamed.scopedTo {R : String → String → Prop} {i : Interface}
    (h : i.MembersNamed R) (context : String) (inherits : Bool) :
    (i.scopedTo context inherits).MembersNamed R where
  constants := h.constants.filter _
  methods := h.methods.filter _
  properties := h.properties.filter _

theorem Interface.MembersNamed.of_selectNamespace? {R : String → String → Prop} {context : String}
    {known : List String} {n m : Interface} (hn : n.MembersNamed R)
    (h : Graph.selectNamespace? context known n = some m) : m.MembersNamed R := by
  obtain ⟨-, rfl⟩ := Graph.selectNamespace?_eq_some_iff.1 h
  exact hn.scopedTo context true

theorem Interface.MembersNamed.of_selectInterface? {R : String → String → Prop} {context : String}
    {known : List String} {i j : Interface} (hi : i.MembersNamed R)
    (h : Graph.selectInterface? context known i = some j) : j.MembersNamed R := by
  obtain ⟨-, rfl⟩ := Graph.selectInterface?_eq_some_iff.1 h
  exact hi.scopedTo context _

theorem EachEntry.keepReached {α : Type} {P : String → α → Prop} {entries : Option (Keyed α)}
    (h : EachEntry P entries) (reached : List String) :
    EachEntry P (Graph.keepReached reached entries) :=
  fun key value hvalue => h key value (Graph.lookup?_keepReached.1 hvalue).1

/-- Where names are keys, the collections can be searched by name. -/
theorem Graph.Named.namesAreKeys {g : Graph} (h : g.Named NameIsKey) : g.NamesAreKeys where
  interfaces key i hi := (h.interfaces key i hi).1
  mixins key m hm := (h.mixins key m hm).1
  callbackInterfaces key i hi := (h.callbackInterfaces key i hi).1
  callbackFunctions := h.callbackFunctions
  dictionaries key d hd := (h.dictionaries key d hd).1
  enums := h.enums

/-- **Names stay keys in a view.** -/
theorem Graph.Named.viewParts {g : Graph} (h : g.Named NameIsKey) (context : String)
    (known : List String) : (g.viewParts context known).Named NameIsKey where
  callbackFunctions := h.callbackFunctions.keepReached _
  callbackInterfaces := h.callbackInterfaces.keepReached _
  dictionaries := h.dictionaries.keepReached _
  enums := h.enums.keepReached _
  interfaces key j hj := by
    obtain ⟨i, hi, hij⟩ := Option.bind_eq_some_iff.1
      ((interface?_viewParts_eq_bind h.namesAreKeys.interfaces context known key).symm.trans hj)
    exact ⟨(h.namesAreKeys.viewParts context known).interfaces key j hj,
      (h.interfaces key i hi).2.of_selectInterface? hij⟩
  mixins key j hj := by
    obtain ⟨m, hm, -, hseen⟩ := ((keeps_viewParts h.namesAreKeys context known).mixins key j).1 hj
    obtain rfl := (Interface.restricts_iff_eq_scopedTo context true).1 hseen
    obtain ⟨hname, hmembers⟩ := h.mixins key m hm
    exact ⟨hname, hmembers.scopedTo context true⟩
  namespaces items hitems j hj := by
    have hselected : j ∈ g.viewNamespaces context known := by
      rw [← namespaces_viewParts, hitems]
      exact hj
    obtain ⟨n, hn, hnj⟩ := List.mem_filterMap.1 hselected
    obtain ⟨all, hall, hn⟩ : ∃ all ∈ g.namespaces, n ∈ all := by
      cases hg : g.namespaces with
      | none => simp [hg] at hn
      | some all => exact ⟨all, rfl, by simpa [hg] using hn⟩
    exact (h.namespaces all hall n hn).of_selectNamespace? hnj

/-! ## Runs -/

/-- A graph of a data file in which names and keys agree. -/
def Graph.OfNamedFile (g : Graph) : Prop :=
  (∃ j, Graph.ofJson j = .ok g) ∧ g.Named NameIsKey

/-- A fragment of a data file in which names and keys agree. -/
def Fragment.OfNamedFile (f : Fragment) : Prop :=
  (∃ j, Fragment.ofJson j = .ok f) ∧ f.Named NameIsKey

theorem Graph.OfNamedFile.follows {g : Graph} (h : g.OfNamedFile) : g.Follows .keys := by
  obtain ⟨⟨j, hj⟩, hnames⟩ := h
  exact Graph.follows_iff.2
    ⟨Graph.tidy_of_ofJson hj, fun _ _ => trivial, fun _ _ => trivial, hnames⟩

theorem Fragment.OfNamedFile.follows {f : Fragment} (h : f.OfNamedFile) : f.Follows .keys := by
  obtain ⟨⟨j, hj⟩, hnames⟩ := h
  exact Fragment.follows_iff.2
    ⟨Fragment.tidy_of_ofJson hj, fun _ _ => trivial, fun _ _ => trivial, hnames⟩

/-- **Names and keys stay in agreement.** If they agree in the baseline, the fragments and the graphs of
the corrections, they do in the result of the run and in every view of it, whatever is removed. -/
theorem integrate_named {options : Options} {baseline : Graph} {fragments : List Fragment}
    {corrections : Corrections} {g : Graph} {report : Report} (hb : baseline.OfNamedFile)
    (hf : ∀ f ∈ fragments, f.OfNamedFile) (ha : corrections.additions.OfNamedFile)
    (ho : corrections.overrides.OfNamedFile) (hc : corrections.comments.OfNamedFile)
    (h : integrate options baseline fragments corrections = .ok (g, report)) :
    g.Named NameIsKey ∧ ∀ (context : String) (known : List String), Text.blank context = false →
      ∃ v, g.view context known = .ok v ∧ v.Named NameIsKey := by
  obtain ⟨p, rfl, -⟩ := integrate_phases h
  have hresult : p.result.Follows .keys := p.follows_result hb.follows
    (fun f hmem => (hf f hmem).follows) ⟨ha.follows, ho.follows, hc.follows⟩
  have hnames : p.result.Named NameIsKey := (Graph.follows_iff.1 hresult).2.2.2
  exact ⟨hnames, fun context known hcontext =>
    ⟨_, Graph.view_eq_ok p.result known hcontext, hnames.viewParts context known⟩⟩

/-- A data file with an interface and a dictionary. -/
def lampJson : Json :=
  .obj [
    ("interfaces", .obj [("interface", .obj [("Lamp", .obj [
      ("name", .str "Lamp"), ("exposed", .str "Window"),
      ("methods", .obj [("method", .obj [("light", .obj [("name", .str "light")])])])])])]),
    ("dictionaries", .obj [("dictionary", .obj [("Bulb", .obj [
      ("name", .str "Bulb"),
      ("members", .obj [("member", .obj [("watts", .obj [("name", .str "watts")])])])])])])]

/-- The graph of this data file. -/
def lampGraph : Graph where
  interfaces := some (.ofList [("Lamp", {
    name := "Lamp"
    methods := some (.ofList [("light", { name := "light" })])
    exposed := some (.ofText "Window") })])
  dictionaries := some (.ofList [("Bulb", {
    name := "Bulb"
    members := some (.ofList [("watts", { name := "watts" })]) })])

/-- The removal of the names of the interface, its method, the dictionary and its member. -/
def lampCorrections : Corrections where
  removals := .nested [
    ("interfaces", .nested [("interface", .nested [("Lamp", .nested [
      ("name", .remove),
      ("methods", .nested [("method", .nested [("light", .names ["name"])])])])])]),
    ("dictionaries", .nested [("dictionary", .nested [("Bulb", .nested [
      ("name", .remove),
      ("members", .nested [("member", .nested [("watts", .nested [("name", .remove)])])])])])])]

/-- A data file with a partial definition of the interface. -/
def lampFragmentJson : Json :=
  .obj [("partialInterfaces", .arr [.obj [("name", .str "Lamp"),
    ("properties", .obj [("property", .obj [("bulb", .obj [("type", .str "Bulb")])])])]])]

/-- The fragment of this data file. -/
def lampFragment : Fragment where
  partialInterfaces := [{
    name := "Lamp"
    properties := some (.ofList [
      ("bulb", { name := "bulb", type := ⟨some (.named "Bulb"), none, none⟩ })]) }]

/-- The interface with the property, and the dictionary. -/
def lampResult : Graph where
  interfaces := some (.ofList [("Lamp", {
    name := "Lamp"
    methods := some (.ofList [("light", { name := "light" })])
    properties := some (.ofList [("bulb", {
      name := "bulb", type := ⟨some (.named "Bulb"), none, none⟩
      exposed := some (.ofText "Window") })])
    exposed := some (.ofText "Window") })])
  dictionaries := lampGraph.dictionaries

/-- All names that the corrections remove are there in the result, and in what windows see of it. -/
theorem lampGraph_named :
    lampGraph.OfNamedFile ∧ lampFragment.OfNamedFile ∧ (∅ : Graph).OfNamedFile ∧
      integrate {} lampGraph [lampFragment] lampCorrections =
        .ok (lampResult, { fragments := 1, partialsFolded := 1 }) ∧
      Text.blank "Window" = false ∧ lampResult.Named NameIsKey ∧
      ∃ v, lampResult.view "Window" [] = .ok v ∧ v.Named NameIsKey := by
  have hgraph : lampGraph.OfNamedFile := ⟨⟨lampJson, by decide +kernel⟩, by decide +kernel⟩
  have hfragment : lampFragment.OfNamedFile :=
    ⟨⟨lampFragmentJson, by decide +kernel⟩, by decide +kernel⟩
  have hempty : (∅ : Graph).OfNamedFile := ⟨⟨.obj [], rfl⟩, by decide +kernel⟩
  have hrun : integrate {} lampGraph [lampFragment] lampCorrections =
      .ok (lampResult, { fragments := 1, partialsFolded := 1 }) := by decide +kernel
  have hcontext : Text.blank "Window" = false := by decide +kernel
  obtain ⟨hnames, hviews⟩ := integrate_named hgraph (by simpa using hfragment) hempty hempty hempty hrun
  exact ⟨hgraph, hfragment, hempty, hrun, hcontext, hnames, hviews "Window" [] hcontext⟩

end IdlDecls
