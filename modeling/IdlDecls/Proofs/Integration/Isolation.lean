import IdlDecls.Proofs.Integration.Folding
import IdlDecls.Proofs.Integration.Phases
import IdlDecls.Proofs.Merge.Inversion
import IdlDecls.Proofs.Removal.PrunedGraph

/-!
# Entries do not interfere

The interface and the mixin with a name come out of an integration as they would from any other
inputs that say the same of this name (`integrate_isolates`). Each phase has one lemma: what it
leaves under a name is determined by what was there before and by what the phase adds under it. An
interface and a mixin of one name are kept together, since a partial interface that finds no
interface goes to the mixin.
-/

namespace IdlDecls

open Merge Merging

/-- The interface and the mixin with a name, each in its collection. -/
def Graph.entriesAt (g : Graph) (name : String) (c : Collection) : Option Interface :=
  c.get? g name

theorem Graph.entriesAt_eq_iff {g g' : Graph} {name : String} :
    g.entriesAt name = g'.entriesAt name ↔
      g.interface? name = g'.interface? name ∧ g.mixin? name = g'.mixin? name := by
  constructor
  · intro h
    exact ⟨congrFun h .interfaces, congrFun h .mixins⟩
  · rintro ⟨hinterface, hmixin⟩
    funext c
    cases c with
    | interfaces => exact hinterface
    | mixins => exact hmixin

/-! ## Merging -/

theorem lookup?_eq_of_collection {α : Type} {level : Policy} {field entries : String}
    {join : α → α → Merging α} {base base' addition addition' result result' : Option (Keyed α)}
    {name : String} (hb : lookup? base name = lookup? base' name)
    (ha : lookup? addition name = lookup? addition' name)
    (h : collection level field entries join base addition = .ok result)
    (h' : collection level field entries join base' addition' = .ok result') :
    lookup? result name = lookup? result' name := by
  have hjoin := lookup?_collection h name
  have hjoin' := lookup?_collection h' name
  rw [← hb, ← ha] at hjoin'
  exact hjoin.unique (fun _ _ m m' hm hm' => Except.ok.inj (hm.symm.trans hm')) hjoin'

/-- A merge leaves under a name what the two graphs had there make of each other. -/
theorem Graph.entriesAt_merge {policy : MergePolicy} {name : String}
    {base base' addition addition' result result' : Graph}
    (hb : base.entriesAt name = base'.entriesAt name)
    (ha : addition.entriesAt name = addition'.entriesAt name)
    (h : base.merge policy addition = .ok result) (h' : base'.merge policy addition' = .ok result') :
    result.entriesAt name = result'.entriesAt name := by
  rw [Graph.entriesAt_eq_iff] at hb ha ⊢
  have hm := Graph.merge_eq_ok_iff.1 h
  have hm' := Graph.merge_eq_ok_iff.1 h'
  exact ⟨lookup?_eq_of_collection hb.1 ha.1 hm.interfaces hm'.interfaces,
    lookup?_eq_of_collection hb.2 ha.2 hm.mixins hm'.mixins⟩

/-- Merges do not bring an extra field under the key of a field. -/
theorem Graph.SeparateExtra.merge {policy : MergePolicy} {base addition result : Graph}
    (hb : base.SeparateExtra) (ha : addition.SeparateExtra)
    (h : base.merge policy addition = .ok result) : result.SeparateExtra := by
  intro key hkey
  have hjoin := Keyed.get?_joinM (Graph.merge_eq_ok_iff.1 h).extra key
  rwa [hb key hkey, ha key hkey, Joined.none_right_iff] at hjoin

/-! ## Fragments -/

/-- Two fragments say the same of a name. -/
structure Fragment.AgreesOn (name : String) (f f' : Fragment) : Prop where
  deprecated : f.deprecated = f'.deprecated
  definitions : f.definitions.entriesAt name = f'.definitions.entriesAt name
  partialInterfaces : f.partialInterfaces.filter (·.name = name) =
    f'.partialInterfaces.filter (·.name = name)
  partialMixins : f.partialMixins.filter (·.name = name) = f'.partialMixins.filter (·.name = name)
  includes : f.includes.filter (·.target = name) = f'.includes.filter (·.target = name)

theorem filter_name_markDeprecated (l : List Interface) (name : String) :
    (l.map Interface.markDeprecated).filter (·.name = name) =
      (l.filter (·.name = name)).map Interface.markDeprecated := by
  rw [List.filter_map]
  rfl

theorem Fragment.AgreesOn.stampDeprecated {name : String} {f f' : Fragment}
    (h : Fragment.AgreesOn name f f') :
    Fragment.AgreesOn name f.stampDeprecated f'.stampDeprecated := by
  obtain ⟨hinterface, hmixin⟩ := Graph.entriesAt_eq_iff.1 h.definitions
  rw [Fragment.stampDeprecated, Fragment.stampDeprecated]
  by_cases hd : f.deprecated = true
  · rw [if_pos hd, if_pos (h.deprecated ▸ hd)]
    refine ⟨h.deprecated, Graph.entriesAt_eq_iff.2 ⟨?_, hmixin⟩, ?_, ?_, h.includes⟩
    · have hmap := congrArg (Option.map Interface.markDeprecated) hinterface
      simpa only [Graph.interface?, lookup?_map_values] using hmap
    · simp only [filter_name_markDeprecated, h.partialInterfaces]
    · simp only [filter_name_markDeprecated, h.partialMixins]
  · rw [if_neg hd, if_neg (h.deprecated ▸ hd)]
    exact h

theorem separateExtra_stampDeprecated {f : Fragment} (h : f.definitions.SeparateExtra) :
    f.stampDeprecated.definitions.SeparateExtra := by
  rw [Fragment.stampDeprecated]
  by_cases hd : f.deprecated = true
  · rw [if_pos hd]
    exact h
  · rw [if_neg hd]
    exact h

/-! ## Merging complete definitions -/

theorem mergeStandard_step {g g' : Graph} {f : Fragment}
    (h : (g.merge .standard f.definitions).toIntegration = .ok g') :
    g.merge .standard f.definitions = .ok g' :=
  mapError_eq_ok_iff.1 h

/-- What a merge has if one of its sides has it, merging complete definitions gathers. -/
theorem mergeStandard_gathers {P : Graph → Prop}
    (hP : ∀ base addition result, base.merge .standard addition = .ok result →
      (P result ↔ P base ∨ P addition)) {base merged : Graph} {fragments : List Fragment}
    (h : mergeStandard base fragments = .ok merged) :
    P merged ↔ P base ∨ ∃ f ∈ fragments, P f.definitions := by
  induction fragments generalizing base with
  | nil =>
    cases foldlM_nil_eq_ok_iff.1 h
    simp
  | cons f rest ih =>
    obtain ⟨next, hnext, hrest⟩ := foldlM_cons_eq_ok_iff.1 h
    rw [ih hrest, hP _ _ _ (mergeStandard_step hnext), List.exists_mem_cons_iff, or_assoc]

theorem entriesAt_mergeStandard {name : String} {base base' merged merged' : Graph}
    {fragments fragments' : List Fragment} (hb : base.entriesAt name = base'.entriesAt name)
    (hf : List.Forall₂ (Fragment.AgreesOn name) fragments fragments')
    (h : mergeStandard base fragments = .ok merged)
    (h' : mergeStandard base' fragments' = .ok merged') :
    merged.entriesAt name = merged'.entriesAt name := by
  refine foldlM_related (P := fun g g' => g.entriesAt name = g'.entriesAt name) ?_ hf hb h h'
  intro f f' g g' next next' hff hgg hnext hnext'
  exact Graph.entriesAt_merge hgg hff.definitions (mergeStandard_step hnext)
    (mergeStandard_step hnext')

theorem separateExtra_mergeStandard {base merged : Graph} {fragments : List Fragment}
    (hb : base.SeparateExtra) (hf : ∀ f ∈ fragments, f.definitions.SeparateExtra)
    (h : mergeStandard base fragments = .ok merged) : merged.SeparateExtra := by
  refine foldlM_keeps ?_ hb h
  intro f hmem g next hg hnext
  exact hg.merge (hf f hmem) (mergeStandard_step hnext)

/-! ## Folding partial definitions -/

theorem Graph.locate?_congr {g g' : Graph} {name : String}
    (h : g.entriesAt name = g'.entriesAt name) (targets : List Collection) :
    g.locate? name targets = g'.locate? name targets := by
  induction targets with
  | nil => rfl
  | cons c rest ih =>
    have hc : c.get? g name = c.get? g' name := congrFun h c
    rw [Graph.locate?, Graph.locate?, hc, ih]

theorem Graph.entriesAt_replace_of_ne {name key : String} (h : key ≠ name) (c : Collection)
    (g : Graph) (i : Interface) : (c.replace g name i).entriesAt key = g.entriesAt key := by
  funext d
  rw [Graph.entriesAt, Collection.get?_replace, if_neg fun hd => h hd.2]
  rfl

theorem Graph.entriesAt_replace_congr {g g' : Graph} {name : String}
    (h : g.entriesAt name = g'.entriesAt name) (c : Collection) (i : Interface) :
    (c.replace g name i).entriesAt name = (c.replace g' name i).entriesAt name := by
  funext d
  have hd : d.get? g name = d.get? g' name := congrFun h d
  rw [Graph.entriesAt, Graph.entriesAt, Collection.get?_replace, Collection.get?_replace, hd]

/-- A partial definition of another name does not show. -/
theorem entriesAt_foldPartialInterface_of_ne {options : Options} {targets : List Collection}
    {name : String} {state next : Folded} {addition : Interface} (hne : addition.name ≠ name)
    (h : foldPartialInterface options targets state addition = .ok next) :
    next.graph.entriesAt name = state.graph.entriesAt name := by
  rcases foldPartialInterface_cases h with ⟨-, hg⟩ | ⟨c, base, merged, -, -, hg⟩
  · rw [hg]
  · rw [hg, Graph.entriesAt_replace_of_ne hne.symm]

/-- What a partial definition leaves under its own name follows from what was there. -/
theorem entriesAt_foldPartialInterface {options : Options} {targets : List Collection}
    {state state' next next' : Folded} {addition : Interface}
    (hs : state.graph.entriesAt addition.name = state'.graph.entriesAt addition.name)
    (h : foldPartialInterface options targets state addition = .ok next)
    (h' : foldPartialInterface options targets state' addition = .ok next') :
    next.graph.entriesAt addition.name = next'.graph.entriesAt addition.name := by
  have hlocate := Graph.locate?_congr hs targets
  rcases foldPartialInterface_cases h with ⟨hl, hg⟩ | ⟨c, base, merged, hl, hm, hg⟩
  · rcases foldPartialInterface_cases h' with ⟨-, hg'⟩ | ⟨c', base', merged', hl', -, -⟩
    · rw [hg, hg', hs]
    · simp [← hlocate, hl] at hl'
  · rcases foldPartialInterface_cases h' with ⟨hl', -⟩ | ⟨c', base', merged', hl', hm', hg'⟩
    · simp [← hlocate, hl] at hl'
    · rw [← hlocate, hl] at hl'
      cases hl'
      cases hm.symm.trans hm'
      rw [hg, hg']
      exact Graph.entriesAt_replace_congr hs c merged

/-- The partial definitions of one name among others decide what becomes of it. -/
theorem entriesAt_foldPartialInterfaces {options : Options} {targets : List Collection}
    {name : String} {l l' : List Interface}
    (hl : l.filter (·.name = name) = l'.filter (·.name = name)) {state state' next next' : Folded}
    (hs : state.graph.entriesAt name = state'.graph.entriesAt name)
    (h : l.foldlM (foldPartialInterface options targets) state = .ok next)
    (h' : l'.foldlM (foldPartialInterface options targets) state' = .ok next') :
    next.graph.entriesAt name = next'.graph.entriesAt name := by
  refine view_eq_of_foldlM (fun s : Folded => s.graph.entriesAt name) ?_ ?_ hl hs h h'
  · intro s a t ha ht
    exact entriesAt_foldPartialInterface_of_ne (by simpa using ha) ht
  · intro a s s' t t' ha hss ht ht'
    obtain rfl : a.name = name := by simpa using ha
    exact entriesAt_foldPartialInterface hss ht ht'

theorem entriesAt_foldPartialDictionaries {options : Options} {name : String} {l : List Dictionary}
    {state next : Folded} (h : l.foldlM (foldPartialDictionary options) state = .ok next) :
    next.graph.entriesAt name = state.graph.entriesAt name := by
  refine foldlM_keeps (P := fun s => s.graph.entriesAt name = state.graph.entriesAt name) ?_ rfl h
  intro d _ s t hs ht
  rcases foldPartialDictionary_cases ht with ⟨-, hg⟩ | ⟨base, merged, -, -, hg⟩
  · rw [hg, hs]
  · rw [hg, ← hs, Graph.entriesAt_eq_iff]
    exact ⟨rfl, rfl⟩

theorem entriesAt_foldFragment {options : Options} {name : String} {f f' : Fragment}
    (hf : Fragment.AgreesOn name f f') {state state' next next' : Folded}
    (hs : state.graph.entriesAt name = state'.graph.entriesAt name)
    (h : foldFragment options state f = .ok next)
    (h' : foldFragment options state' f' = .ok next') :
    next.graph.entriesAt name = next'.graph.entriesAt name := by
  simp only [foldFragment, bind_eq_ok_iff] at h h'
  obtain ⟨interfaces, hinterfaces, mixins, hmixins, hdictionaries⟩ := h
  obtain ⟨interfaces', hinterfaces', mixins', hmixins', hdictionaries'⟩ := h'
  have hi := entriesAt_foldPartialInterfaces hf.partialInterfaces hs hinterfaces hinterfaces'
  have hm := entriesAt_foldPartialInterfaces hf.partialMixins hi hmixins hmixins'
  rw [entriesAt_foldPartialDictionaries hdictionaries, hm,
    entriesAt_foldPartialDictionaries hdictionaries']

theorem entriesAt_foldPartials {options : Options} {name : String} {fragments fragments' : List Fragment}
    (hf : List.Forall₂ (Fragment.AgreesOn name) fragments fragments')
    {state state' next next' : Folded}
    (hs : state.graph.entriesAt name = state'.graph.entriesAt name)
    (h : foldPartials options fragments state = .ok next)
    (h' : foldPartials options fragments' state' = .ok next') :
    next.graph.entriesAt name = next'.graph.entriesAt name := by
  refine foldlM_related (P := fun s s' => s.graph.entriesAt name = s'.graph.entriesAt name) ?_ hf hs
    h h'
  intro f f' s s' t t' hff hss ht ht'
  exact entriesAt_foldFragment hff hss ht ht'

/-! ## Folding includes -/

theorem filter_flatMap_includes {name : String} {fragments fragments' : List Fragment}
    (h : List.Forall₂ (Fragment.AgreesOn name) fragments fragments') :
    (fragments.flatMap (·.includes)).filter (·.target = name) =
      (fragments'.flatMap (·.includes)).filter (·.target = name) := by
  induction h with
  | nil => rfl
  | cons hf _ ih =>
    rw [List.flatMap_cons, List.flatMap_cons, List.filter_append, List.filter_append, hf.includes,
      ih]

theorem entriesAt_foldIncludes {options : Options} {name : String}
    {fragments fragments' : List Fragment}
    (hf : List.Forall₂ (Fragment.AgreesOn name) fragments fragments')
    {state state' next next' : Folded}
    (hs : state.graph.entriesAt name = state'.graph.entriesAt name)
    (h : foldIncludes options fragments state = .ok next)
    (h' : foldIncludes options fragments' state' = .ok next') :
    next.graph.entriesAt name = next'.graph.entriesAt name := by
  refine view_eq_of_foldlM (fun s : Folded => s.graph.entriesAt name) ?_ ?_
    (filter_flatMap_includes hf) hs h h'
  · intro s a t ha ht
    have hne : name ≠ a.target := by simpa [eq_comm] using ha
    rcases foldInclude_cases ht with ⟨-, hg⟩ | ⟨i, -, hg⟩
    · rw [hg]
    · rw [hg, Graph.entriesAt_replace_of_ne hne]
  · intro a s s' t t' ha hss ht ht'
    obtain rfl : a.target = name := by simpa using ha
    have hi : s.graph.interface? a.target = s'.graph.interface? a.target := congrFun hss .interfaces
    rcases foldInclude_cases ht with ⟨hn, hg⟩ | ⟨i, hfound, hg⟩
    · rcases foldInclude_cases ht' with ⟨-, hg'⟩ | ⟨i', hfound', -⟩
      · rw [hg, hg', hss]
      · simp [← hi, hn] at hfound'
    · rcases foldInclude_cases ht' with ⟨hn', -⟩ | ⟨i', hfound', hg'⟩
      · simp [← hi, hfound] at hn'
      · rw [← hi, hfound] at hfound'
        cases hfound'
        rw [hg, hg']
        exact Graph.entriesAt_replace_congr hss .interfaces _

/-! ## Corrections -/

theorem Graph.entriesAt_prune {name : String} {template : Template} {g g' pruned pruned' : Graph}
    (hg : g.SeparateExtra) (hg' : g'.SeparateExtra) (hs : g.entriesAt name = g'.entriesAt name)
    (h : g.prune template = .ok pruned) (h' : g'.prune template = .ok pruned') :
    pruned.entriesAt name = pruned'.entriesAt name := by
  rw [Graph.entriesAt_eq_iff] at hs ⊢
  have hinterface := Graph.interface?_prune hg h name
  have hmixin := Graph.mixin?_prune hg h name
  rw [hs.1] at hinterface
  rw [hs.2] at hmixin
  exact ⟨hinterface.unique (Graph.interface?_prune hg' h' name),
    hmixin.unique (Graph.mixin?_prune hg' h' name)⟩

theorem Graph.entriesAt_applyExposureOverrides {name : String} {g g' result result' : Graph}
    {count count' : Nat} (hs : g.entriesAt name = g'.entriesAt name)
    (h : g.applyExposureOverrides = .ok (result, count))
    (h' : g'.applyExposureOverrides = .ok (result', count')) :
    result.entriesAt name = result'.entriesAt name := by
  have happly : ∀ {g result : Graph} {count}, g.applyExposureOverrides = .ok (result, count) →
      result.interface? name = (g.interface? name).map Interface.applyOverride ∧
        result.mixin? name = g.mixin? name := by
    intro g result count h
    rw [Graph.applyExposureOverrides] at h
    split at h
    · cases h
    · cases h
      exact ⟨lookup?_map_values _ _ _, rfl⟩
  rw [Graph.entriesAt_eq_iff] at hs ⊢
  rw [(happly h).1, (happly h').1, (happly h).2, (happly h').2, hs.1, hs.2]
  exact ⟨rfl, rfl⟩

/-! ## The whole run -/

/-- Two sets of corrections remove the same and say the same of a name. -/
structure Corrections.AgreesOn (name : String) (c c' : Corrections) : Prop where
  removals : c.removals = c'.removals
  additions : c.additions.entriesAt name = c'.additions.entriesAt name
  overrides : c.overrides.entriesAt name = c'.overrides.entriesAt name
  comments : c.comments.entriesAt name = c'.comments.entriesAt name

/-- The graph that is pruned has its extra fields beside its fields. -/
theorem Phases.separateExtra {options : Options} {baseline : Graph} {fragments : List Fragment}
    {corrections : Corrections} (p : Phases options baseline fragments corrections)
    (hb : baseline.SeparateExtra) (hf : ∀ f ∈ fragments, f.definitions.SeparateExtra) :
    p.included.graph.SeparateExtra := by
  have hstamped : ∀ f ∈ fragments.map Fragment.stampDeprecated, f.definitions.SeparateExtra := by
    intro f hmem
    obtain ⟨whole, hwhole, rfl⟩ := List.mem_map.1 hmem
    exact separateExtra_stampDeprecated (hf whole hwhole)
  have hmerged := separateExtra_mergeStandard hb hstamped p.merging
  have hextra : p.included.graph.extra = p.merged.extra :=
    (extra_foldIncludes p.including).trans (extra_foldPartials p.folding)
  intro key hkey
  rw [hextra]
  exact hmerged key hkey

/-- **Entries do not interfere.** Two integrations whose inputs say the same of a name leave the same
under it. That extra fields stand beside the fields of baselines and definitions is so of all graphs
that are read. -/
theorem integrate_isolates {options : Options} {name : String} {baseline baseline' : Graph}
    {fragments fragments' : List Fragment} {corrections corrections' : Corrections}
    (hbaseline : baseline.entriesAt name = baseline'.entriesAt name)
    (hfragments : List.Forall₂ (Fragment.AgreesOn name) fragments fragments')
    (hcorrections : Corrections.AgreesOn name corrections corrections')
    (hseparate : baseline.SeparateExtra ∧ ∀ f ∈ fragments, f.definitions.SeparateExtra)
    (hseparate' : baseline'.SeparateExtra ∧ ∀ f ∈ fragments', f.definitions.SeparateExtra)
    {g g' : Graph} {report report' : Report}
    (h : integrate options baseline fragments corrections = .ok (g, report))
    (h' : integrate options baseline' fragments' corrections' = .ok (g', report')) :
    g.interface? name = g'.interface? name ∧ g.mixin? name = g'.mixin? name := by
  obtain ⟨p, rfl, -⟩ := integrate_phases h
  obtain ⟨p', rfl, -⟩ := integrate_phases h'
  have hstamped : List.Forall₂ (Fragment.AgreesOn name) (fragments.map Fragment.stampDeprecated)
      (fragments'.map Fragment.stampDeprecated) := by
    rw [List.forall₂_map_left_iff, List.forall₂_map_right_iff]
    exact hfragments.imp fun _ _ hf => hf.stampDeprecated
  have hmerged := entriesAt_mergeStandard hbaseline hstamped p.merging p'.merging
  have hfolded := entriesAt_foldPartials hstamped hmerged p.folding p'.folding
  have hincluded := entriesAt_foldIncludes hstamped hfolded p.including p'.including
  have hpruning := p'.pruning
  rw [← hcorrections.removals] at hpruning
  have hpruned := Graph.entriesAt_prune (p.separateExtra hseparate.1 hseparate.2)
    (p'.separateExtra hseparate'.1 hseparate'.2) hincluded p.pruning hpruning
  have hadded := Graph.entriesAt_merge hpruned hcorrections.additions
    (mapError_eq_ok_iff.1 p.adding) (mapError_eq_ok_iff.1 p'.adding)
  have hoverridden := Graph.entriesAt_merge hadded hcorrections.overrides
    (mapError_eq_ok_iff.1 p.overriding) (mapError_eq_ok_iff.1 p'.overriding)
  have hcommented := Graph.entriesAt_merge hoverridden hcorrections.comments
    (mapError_eq_ok_iff.1 p.commenting) (mapError_eq_ok_iff.1 p'.commenting)
  exact Graph.entriesAt_eq_iff.1
    (Graph.entriesAt_applyExposureOverrides hcommented p.exposing p'.exposing)

/-- A baseline with one interface. -/
def portGraph : Graph where
  interfaces := some (.ofList [("Port", { name := "Port" })])

/-- The baseline of `portGraph` beside another interface. -/
def harbourGraph : Graph where
  interfaces := some (.ofList [("Port", { name := "Port" }), ("Quay", { name := "Quay" })])

/-- A fragment that gives the port an identifier. -/
def portFragment : Fragment where
  partialInterfaces := [{
    name := "Port"
    properties := some (.ofList [("id", { name := "id" })]) }]
  includes := [⟨"Port", "Named"⟩]

/-- The fragment of `portFragment` with statements about the other interface in between. -/
def harbourFragment : Fragment where
  partialInterfaces := [
    { name := "Quay", properties := some (.ofList [("id", { name := "id" })]) },
    { name := "Port", properties := some (.ofList [("id", { name := "id" })]) }]
  includes := [⟨"Port", "Named"⟩, ⟨"Quay", "Named"⟩]

/-- What an integration makes of an interface under a name. -/
def namedInterface (name : String) : Interface where
  name := name
  properties := some (.ofList [("id", { name := "id" })])
  implements := some ["Named"]

theorem portGraph_isolated :
    ∃ g g' report report', integrate {} portGraph [portFragment] {} = .ok (g, report) ∧
      integrate {} harbourGraph [harbourFragment] {} = .ok (g', report') ∧ g ≠ g' ∧
      g.interface? "Port" = g'.interface? "Port" ∧ g.mixin? "Port" = g'.mixin? "Port" := by
  have h : integrate {} portGraph [portFragment] {} =
      .ok ({ interfaces := some (.ofList [("Port", namedInterface "Port")]) },
        { fragments := 1, partialsFolded := 1, includesFolded := 1 }) := by decide +kernel
  have h' : integrate {} harbourGraph [harbourFragment] {} =
      .ok ({ interfaces := some (.ofList
          [("Port", namedInterface "Port"), ("Quay", namedInterface "Quay")]) },
        { fragments := 1, partialsFolded := 2, includesFolded := 2 }) := by decide +kernel
  have hbaseline : portGraph.entriesAt "Port" = harbourGraph.entriesAt "Port" :=
    Graph.entriesAt_eq_iff.2 (by decide +kernel)
  have hfragment : Fragment.AgreesOn "Port" portFragment harbourFragment :=
    ⟨rfl, rfl, by decide +kernel, rfl, by decide +kernel⟩
  have hisolated := integrate_isolates hbaseline (.cons hfragment .nil) ⟨rfl, rfl, rfl, rfl⟩
    (by decide +kernel) (by decide +kernel) h h'
  exact ⟨_, _, _, _, h, h', by decide +kernel, hisolated⟩

/-- The baseline of `portGraph` with an extra field under the key of its interfaces. -/
def sunkenGraph : Graph where
  interfaces := some (.ofList [("Port", { name := "Port" })])
  extra := .ofList [("interfaces", .obj [("interface", .obj [])])]

/-- A baseline with an interface that goes by another name than its key. -/
def doorGraph : Graph where
  interfaces := some (.ofList [("Gate", { name := "Door" })])

/-- A fragment that gives the interface under the key `Gate` a method. -/
def gateFragment : Fragment where
  partialInterfaces := [{
    name := "Gate"
    methods := some (.ofList [("open", { name := "open" })]) }]

/-- Entries do interfere where an extra field stands under the key of a field: written out, it takes the
place of the interfaces. And they are told apart by their keys: the interface that goes by `Door` changes
with a partial definition of `Gate`, though no fragment says anything of `Door`. -/
theorem misplaced_extra_not_isolated :
    (portGraph.entriesAt "Port" = sunkenGraph.entriesAt "Port" ∧
      ∃ g g' report report', integrate {} portGraph [] {} = .ok (g, report) ∧
        integrate {} sunkenGraph [] {} = .ok (g', report') ∧
        g.interface? "Port" ≠ g'.interface? "Port") ∧
    (gateFragment.partialInterfaces.filter (·.name = "Door") = [] ∧
      ∃ g g' report report', integrate {} doorGraph [{}] {} = .ok (g, report) ∧
        integrate {} doorGraph [gateFragment] {} = .ok (g', report') ∧
        (valuesOf g.interfaces).filter (·.name = "Door") ≠
          (valuesOf g'.interfaces).filter (·.name = "Door")) := by
  have hagree : portGraph.entriesAt "Port" = sunkenGraph.entriesAt "Port" :=
    Graph.entriesAt_eq_iff.2 (by decide +kernel)
  have hport : integrate {} portGraph [] {} = .ok (portGraph, {}) := by decide +kernel
  have hsunken : integrate {} sunkenGraph [] {} =
      .ok ({ interfaces := some ∅ }, {}) := by decide +kernel
  have hdoor : integrate {} doorGraph [{}] {} = .ok (doorGraph, { fragments := 1 }) := by
    decide +kernel
  have hgate : integrate {} doorGraph [gateFragment] {} =
      .ok ({ interfaces := some (.ofList [("Gate", {
          name := "Door", methods := some (.ofList [("open", { name := "open" })]) })]) },
        { fragments := 1, partialsFolded := 1 }) := by decide +kernel
  exact ⟨⟨hagree, _, _, _, _, hport, hsunken, by decide +kernel⟩,
    by decide +kernel, _, _, _, _, hdoor, hgate, by decide +kernel⟩

end IdlDecls
