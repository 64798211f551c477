import IdlDecls.Proofs.Integration.Deprecated
import IdlDecls.Proofs.Merge.Distinct
import IdlDecls.Proofs.Removal.Distinct

/-!
# A run keeps names apart

Type definitions and namespaces stand in lists, and only the merges and the removal of types change
these lists: folding replaces entries of the keyed collections, and exposing changes interfaces. So if
no name of such a list repeats in what an integration is given, none repeats in what it returns
(`identitiesDistinct_kept`), and a type definition that is looked up by its name is the only one.
-/

namespace IdlDecls

open Merge Merging

/-! ## Looking up -/

/-- A type definition with a name is found by it, and no other place of the list has this name. -/
def Graph.FindsTypedefs (g : Graph) : Prop :=
  ∀ (i : Nat) (t : Typedef), (g.typedefs.getD [])[i]? = some t → t.name ≠ "" →
    g.typedef? t.name = some t ∧
      ∀ (k : Nat) (u : Typedef), (g.typedefs.getD [])[k]? = some u → u.name = t.name → k = i

/-- Where identities are distinct, an item is at one index only. -/
theorem IdentitiesDistinct.index_eq {α : Type} {identity : α → String} {l : List α}
    (hl : IdentitiesDistinct identity l) {i k : Nat} {a b : α} (ha : l[i]? = some a)
    (hb : l[k]? = some b) (hname : identity a ≠ "") (heq : identity b = identity a) : k = i := by
  obtain ⟨hi, rfl⟩ := List.getElem?_eq_some_iff.1 ha
  obtain ⟨hk, rfl⟩ := List.getElem?_eq_some_iff.1 hb
  have hpairs := List.pairwise_iff_getElem.1 hl
  rcases Nat.lt_trichotomy k i with hlt | rfl | hgt
  · exact absurd (heq ▸ hpairs k i hk hi hlt heq) hname
  · rfl
  · exact absurd (hpairs i k hi hk hgt heq.symm) hname

theorem Graph.IdentitiesDistinct.findsTypedefs {g : Graph} (hg : g.IdentitiesDistinct) :
    g.FindsTypedefs := by
  intro i t ht hname
  have honly : ∀ (k : Nat) (u : Typedef), (g.typedefs.getD [])[k]? = some u → u.name = t.name →
      k = i := fun k u hu heq => hg.typedefs.index_eq ht hu hname heq
  refine ⟨?_, honly⟩
  obtain ⟨u, hu⟩ : ∃ u, g.typedef? t.name = some u := by
    rw [← Option.isSome_iff_exists, Graph.typedef?, List.find?_isSome]
    exact ⟨t, List.mem_of_getElem? ht, by simp⟩
  obtain ⟨k, hk⟩ := List.mem_iff_getElem?.1 (List.mem_of_find?_eq_some hu)
  have hkname : u.name = t.name := by simpa using List.find?_some hu
  cases honly k u hk hkname
  rw [hu, ← hk, ht]

/-! ## Runs -/

/-- What is merged into a graph in the course of a run has its names apart. -/
structure Corrections.IdentitiesDistinct (corrections : Corrections) : Prop where
  additions : corrections.additions.IdentitiesDistinct
  overrides : corrections.overrides.IdentitiesDistinct
  comments : corrections.comments.IdentitiesDistinct

/-- Two graphs with the same lists have their names apart alike. -/
theorem Graph.IdentitiesDistinct.congr {g h : Graph} (hg : g.IdentitiesDistinct)
    (htypedefs : h.typedefs = g.typedefs) (hnamespaces : h.namespaces = g.namespaces) :
    h.IdentitiesDistinct :=
  ⟨htypedefs ▸ hg.typedefs, hnamespaces ▸ hg.namespaces⟩

theorem Fragment.identitiesDistinct_stampDeprecated {f : Fragment}
    (hf : f.definitions.IdentitiesDistinct) :
    f.stampDeprecated.definitions.IdentitiesDistinct := by
  rw [Fragment.stampDeprecated]
  split
  · exact hf.congr rfl rfl
  · exact hf

theorem Graph.IdentitiesDistinct.mergeStandard {g merged : Graph} {fragments : List Fragment}
    (hg : g.IdentitiesDistinct) (hf : ∀ f ∈ fragments, f.definitions.IdentitiesDistinct)
    (h : mergeStandard g fragments = .ok merged) : merged.IdentitiesDistinct :=
  foldlM_keeps (fun f hmem _ _ hs hnext => hs.merge (hf f hmem) (mergeStandard_step hnext)) hg h

section Phases

variable {options : Options} {baseline : Graph} {fragments : List Fragment}
  {corrections : Corrections}

/-- Folding changes neither list. -/
theorem Phases.identitiesDistinct_included (p : Phases options baseline fragments corrections)
    (hb : baseline.IdentitiesDistinct) (hf : ∀ f ∈ fragments, f.definitions.IdentitiesDistinct) :
    p.included.graph.IdentitiesDistinct := by
  have hstamped : ∀ f ∈ fragments.map Fragment.stampDeprecated,
      f.definitions.IdentitiesDistinct :=
    List.forall_mem_map.2 fun f hmem => Fragment.identitiesDistinct_stampDeprecated (hf f hmem)
  have hmerged := hb.mergeStandard hstamped p.merging
  have hfolded : p.folded.graph.IdentitiesDistinct := hmerged.congr
    (frame_foldPartials Graph.typedefs (fun c _ _ _ => by cases c <;> rfl) (fun _ _ => rfl) p.folding)
    (frame_foldPartials Graph.namespaces (fun c _ _ _ => by cases c <;> rfl) (fun _ _ => rfl)
      p.folding)
  exact hfolded.congr
    (frame_foldIncludes Graph.typedefs (fun c _ _ _ => by cases c <;> rfl) p.including)
    (frame_foldIncludes Graph.namespaces (fun c _ _ _ => by cases c <;> rfl) p.including)

/-- **A run keeps names apart.** -/
theorem Phases.identitiesDistinct_result (p : Phases options baseline fragments corrections)
    (hb : baseline.Tidy) (hf : ∀ f ∈ fragments, f.Tidy) (hbd : baseline.IdentitiesDistinct)
    (hfd : ∀ f ∈ fragments, f.definitions.IdentitiesDistinct)
    (hc : corrections.IdentitiesDistinct) : p.result.IdentitiesDistinct := by
  have hpruned := (p.identitiesDistinct_included hbd hfd).prune (p.tidy_included hb hf) p.pruning
  have hadded := hpruned.merge hc.additions (mapError_eq_ok_iff.1 p.adding)
  have hoverridden := hadded.merge hc.overrides (mapError_eq_ok_iff.1 p.overriding)
  have hcommented := hoverridden.merge hc.comments (mapError_eq_ok_iff.1 p.commenting)
  obtain ⟨-, hresult, -⟩ := Graph.applyExposureOverrides_eq_ok_iff.1 p.exposing
  rw [hresult]
  exact hcommented.congr rfl rfl

end Phases

/-- **Lists that are searched by name stay free of duplicates.** A merge under any policy keeps names
apart, and every item of its base in its place and under its name; and so a run of an integration whose
inputs have their names apart returns a graph that has them apart, whatever its removal template, in
which a type definition that is looked up is the only one of its name. All that is read from data files
is tidy (`Graph.tidy_of_ofJson`, `Fragment.tidy_of_ofJson`). -/
theorem identitiesDistinct_kept :
    (∀ (policy : MergePolicy) (base addition result : Graph), base.IdentitiesDistinct →
      addition.IdentitiesDistinct → base.merge policy addition = .ok result →
      result.IdentitiesDistinct ∧ base.IdentitiesKept result) ∧
    ∀ (options : Options) (baseline : Graph) (fragments : List Fragment)
      (corrections : Corrections) (g : Graph) (report : Report), baseline.Tidy →
      (∀ f ∈ fragments, f.Tidy) → baseline.IdentitiesDistinct →
      (∀ f ∈ fragments, f.definitions.IdentitiesDistinct) → corrections.IdentitiesDistinct →
      integrate options baseline fragments corrections = .ok (g, report) →
      g.IdentitiesDistinct ∧ g.FindsTypedefs := by
  refine ⟨fun policy base addition result hb ha h => ?_, ?_⟩
  · exact ⟨hb.merge ha h, Graph.identitiesKept_merge h⟩
  · intro options baseline fragments corrections g report hb hf hbd hfd hc h
    obtain ⟨p, rfl, -⟩ := integrate_phases h
    have hresult := p.identitiesDistinct_result hb hf hbd hfd hc
    exact ⟨hresult, hresult.findsTypedefs⟩

/-- A data file with a type definition, another one without a name, and a namespace. -/
def quayJson : Json :=
  .obj [("typedefs", .obj [("typedef", .arr [
      .obj [("new-type", .str "Depth"), ("type", .str "double")], .obj [("type", .str "any")]])]),
    ("namespaces", .arr [.obj [("name", .str "Tides")]])]

/-- The graph of this data file. -/
def quayGraph : Graph where
  typedefs := some [
    { name := "Depth", type := ⟨some (.named "double"), none, none⟩ },
    { type := ⟨some (.named "any"), none, none⟩ }]
  namespaces := some [{ name := "Tides" }]

/-- A data file of a fragment that says more of both names and brings others. -/
def quayFragmentJson : Json :=
  .obj [("browser", .obj [
    ("typedefs", .obj [("typedef", .arr [.obj [("new-type", .str "Draft")], .obj [],
      .obj [("new-type", .str "Depth"), ("comment", .str "In metres.")]])]),
    ("namespaces", .arr [.obj [("name", .str "Locks")],
      .obj [("name", .str "Tides"), ("comment", .str "Twice a day.")]])])]

/-- The fragment of this data file. -/
def quayFragment : Fragment where
  definitions := {
    typedefs := some [{ name := "Draft" }, {}, { name := "Depth", comment := some "In metres." }]
    namespaces := some [{ name := "Locks" }, { name := "Tides", comment := some "Twice a day." }] }

/-- The removal of one of the new names, and a third. -/
def quayCorrections : Corrections where
  removals := .nested [("typedefs", .nested [("typedef", .names ["Draft"])])]
  additions := { typedefs := some [{ name := "Berth" }] }

/-- The names come together where they meet, and only the empty one repeats. -/
theorem quayGraph_distinct :
    quayGraph.Tidy ∧ quayFragment.Tidy ∧ quayGraph.IdentitiesDistinct ∧
      quayFragment.definitions.IdentitiesDistinct ∧ quayCorrections.IdentitiesDistinct ∧
      (∃ merged, quayGraph.merge .standard quayFragment.definitions = .ok merged ∧
        merged.IdentitiesDistinct ∧ quayGraph.IdentitiesKept merged) ∧
      ∃ g report, integrate {} quayGraph [quayFragment] quayCorrections = .ok (g, report) ∧
        g.IdentitiesDistinct ∧ g.FindsTypedefs ∧
        (g.typedefs.getD []).map Typedef.name = ["Depth", "", "", "Berth"] ∧
        (g.namespaces.getD []).map Interface.name = ["Tides", "Locks"] := by
  have hread : Graph.ofJson quayJson = .ok quayGraph := by decide +kernel
  have hfragment : Fragment.ofJson quayFragmentJson = .ok quayFragment := by decide +kernel
  have hb := Graph.tidy_of_ofJson hread
  have hf := Fragment.tidy_of_ofJson hfragment
  have hbd : quayGraph.IdentitiesDistinct := by decide +kernel
  have hfd : quayFragment.definitions.IdentitiesDistinct := by decide +kernel
  have hc : quayCorrections.IdentitiesDistinct :=
    ⟨by decide +kernel, by decide +kernel, by decide +kernel⟩
  obtain ⟨merged, hmerged⟩ : ∃ merged,
      quayGraph.merge .standard quayFragment.definitions = .ok merged := ⟨_, rfl⟩
  obtain ⟨g, report, hrun, htypedefs, hnamespaces⟩ : ∃ g report,
      integrate {} quayGraph [quayFragment] quayCorrections = .ok (g, report) ∧
        (g.typedefs.getD []).map Typedef.name = ["Depth", "", "", "Berth"] ∧
        (g.namespaces.getD []).map Interface.name = ["Tides", "Locks"] :=
    ⟨_, _, rfl, by decide +kernel, by decide +kernel⟩
  have hmerge := identitiesDistinct_kept.1 _ _ _ _ hbd hfd hmerged
  have hkept := identitiesDistinct_kept.2 _ _ _ _ _ _ hb (by simpa using hf) hbd (by simpa using hfd)
    hc hrun
  exact ⟨hb, hf, hbd, hfd, hc, ⟨merged, hmerged, hmerge⟩, g, report, hrun, hkept.1, hkept.2,
    htypedefs, hnamespaces⟩

/-- Two namespaces without names, each with an extra field under the key of its name. -/
def floodGraph : Graph where
  namespaces := some [{ extra := .ofList [("name", .str "Tides")] },
    { extra := .ofList [("name", .str "Tides")] }]

/-- Two type definitions without names. -/
def namelessGraph : Graph where
  typedefs := some [{ type := ⟨some (.named "long"), none, none⟩ },
    { type := ⟨some (.named "double"), none, none⟩ }]

/-- Names come to repeat where an extra field stands under the key of a name: written out, it takes the
place of the name. And type definitions without names are not told apart by looking them up. -/
theorem misplaced_extra_not_distinct :
    (floodGraph.IdentitiesDistinct ∧ ∃ g report, integrate {} floodGraph [] {} = .ok (g, report) ∧
      ¬g.IdentitiesDistinct) ∧
    (namelessGraph.IdentitiesDistinct ∧ integrate {} namelessGraph [] {} = .ok (namelessGraph, {}) ∧
      ∃ t u, (namelessGraph.typedefs.getD [])[0]? = some t ∧
        (namelessGraph.typedefs.getD [])[1]? = some u ∧ t.name = "" ∧ u.name = "" ∧
        namelessGraph.typedef? "" = some t) := by
  obtain ⟨g, report, hrun, hrepeats⟩ : ∃ g report,
      integrate {} floodGraph [] {} = .ok (g, report) ∧ ¬g.IdentitiesDistinct :=
    ⟨_, _, rfl, by decide +kernel⟩
  exact ⟨⟨by decide +kernel, g, report, hrun, hrepeats⟩, by decide +kernel, by decide +kernel, _, _, rfl,
    rfl, rfl, rfl, by decide +kernel⟩

end IdlDecls
