import IdlDecls.Proofs.Integration.Deprecated
import IdlDecls.Proofs.Removal.Included

/-!
# When a mixin is included twice

The merges of an integration unite the mixins that an interface includes, but an includes statement puts
its mixin at the end of the list without looking whether it is there. So a list without repetitions can
have some in the result: an interface includes a mixin more than once exactly if a statement names a
mixin that a definition of the interface lists as well, or two statements name it, and the removal
template leaves it there (`integrate_repeats_iff`). Mixins are the target of no statement, and their
lists stay free of repetitions.
-/

namespace IdlDecls

open Merge Merging

/-! ## Lists of mixins -/

/-- The entry of a collection with a name, as far as it includes mixins. -/
def Graph.listing (g : Graph) (c : Collection) (name : String) : Option (Option (List String)) :=
  (c.get? g name).map (·.implements)

theorem Graph.implementsOf_eq_of_listing {g h : Graph} (c : Collection) (name : String)
    (heq : g.listing = h.listing) : g.implementsOf c name = h.implementsOf c name := by
  have hbind : ∀ k : Graph, k.implementsOf c name = ((k.listing c name).bind id).getD [] := by
    intro k
    rw [Graph.implementsOf, Graph.implements?, Graph.listing, Option.bind_map]
    rfl
  rw [hbind, hbind, heq]

/-- Stamping a fragment changes no list of mixins. -/
theorem Fragment.listing_stampDeprecated (f : Fragment) :
    f.stampDeprecated.definitions.listing = f.definitions.listing := by
  funext c name
  rw [Fragment.stampDeprecated]
  split
  · cases c with
    | mixins => rfl
    | interfaces =>
      simp only [Graph.listing, Collection.get?, Graph.interface?, lookup?_map_values,
        Option.map_map]
      rfl
  · rfl

theorem Fragment.includes_stampDeprecated (f : Fragment) :
    f.stampDeprecated.includes = f.includes := by
  rw [Fragment.stampDeprecated]
  split <;> rfl

theorem Graph.isSome_eq_of_listing {g h : Graph} (c : Collection) (name : String)
    (heq : g.listing = h.listing) : (c.get? g name).isSome = (c.get? h name).isSome := by
  have hlisting := congrArg Option.isSome (congrFun (congrFun heq c) name)
  simpa only [Graph.listing, Option.isSome_map] using hlisting

theorem Interface.implements_applyOverride (i : Interface) :
    i.applyOverride.implements = i.implements := by
  rw [Interface.applyOverride]
  split <;> rfl

/-- Overriding exposures change no list of mixins. -/
theorem Graph.listing_applyExposureOverrides {g result : Graph} {count : Nat}
    (h : g.applyExposureOverrides = .ok (result, count)) : result.listing = g.listing := by
  obtain ⟨-, rfl, -⟩ := Graph.applyExposureOverrides_eq_ok_iff.1 h
  funext c name
  cases c with
  | mixins => rfl
  | interfaces =>
    simp only [Graph.listing, Collection.get?, Graph.interface?, lookup?_map_values,
      Option.map_map, Function.comp_def, Interface.implements_applyOverride]

/-! ## Folding -/

theorem Interface.implements_foldPartial {base addition merged : Interface}
    (h : base.foldPartial addition = .ok merged) : merged.implements = base.implements := by
  obtain ⟨-, -, -, heq⟩ :=
    Interface.mergeMembers_eq_ok_iff.1 (Interface.foldPartial_iff_mergeMembers.1 h)
  rw [heq]

/-- Partial definitions bring members alone. -/
theorem Graph.listing_foldPartials {options : Options} {fragments : List Fragment}
    {state next : Folded} (h : foldPartials options fragments state = .ok next) :
    next.graph.listing = state.graph.listing := by
  refine frame_foldPartials_of_entry Graph.listing ?_ (fun g _ _ _ _ _ _ => ?_) h
  · intro c g name base addition merged hbase hm
    funext d key
    rw [Graph.listing, Graph.listing, Collection.get?_replace]
    split
    · rename_i hsame
      obtain ⟨rfl, rfl⟩ := hsame
      rw [hbase, Option.map_some, Option.map_some, Option.map_some,
        Interface.implements_foldPartial hm]
    · rfl
  · funext d key
    cases d <;> rfl

/-- The mixins that some statements include in an interface, in their order. -/
def includedIn (statements : List Include) (name : String) : List String :=
  (statements.filter fun statement => statement.target = name).map (·.includes)

theorem count_includedIn (statements : List Include) (name mixin : String) :
    (includedIn statements name).count mixin = statements.count ⟨name, mixin⟩ := by
  induction statements with
  | nil => rfl
  | cons statement rest ih =>
    obtain ⟨target, included⟩ := statement
    rw [includedIn] at ih ⊢
    by_cases htarget : target = name
    · rw [List.filter_cons_of_pos (by simpa using htarget), List.map_cons, List.count_cons,
        List.count_cons, ih]
      simp [htarget]
    · rw [List.filter_cons_of_neg (by simpa using htarget), List.count_cons, ih]
      simp [htarget]

section Includes

variable {options : Options} {state next : Folded}

/-- **One statement** comes to the end of its interface's list, whether or not the mixin is there. -/
theorem Graph.implementsOf_foldInclude {statement : Include}
    (h : foldInclude options state statement = .ok next) (name : String) :
    (next.graph.interface? name).isSome = (state.graph.interface? name).isSome ∧
      ((state.graph.interface? name).isSome → next.graph.implementsOf .interfaces name =
        state.graph.implementsOf .interfaces name ++ includedIn [statement] name) := by
  have hget : ∀ g : Graph, g.interface? name = Collection.interfaces.get? g name := fun _ => rfl
  rcases foldInclude_cases h with ⟨hnone, hg⟩ | ⟨i, hi, hg⟩
  · rw [hg]
    refine ⟨rfl, fun hsome => ?_⟩
    have htarget : statement.target ≠ name := by
      rintro rfl
      simp [hnone] at hsome
    simp [includedIn, htarget]
  · rw [hg, hget, hget, Collection.isSome_get?_replace]
    refine ⟨rfl, fun _ => ?_⟩
    rw [Graph.implementsOf, Graph.implementsOf, Graph.implements?, Graph.implements?,
      Collection.get?_replace]
    by_cases htarget : statement.target = name
    · subst htarget
      rw [← hget, hi]
      simp [includedIn, Interface.including]
    · simp [includedIn, htarget, Ne.symm htarget]

/-- **All statements** come to the end, in their order. -/
theorem Graph.implementsOf_foldlM_includes : ∀ {statements : List Include} {state next : Folded},
    statements.foldlM (foldInclude options) state = .ok next → ∀ name : String,
      (next.graph.interface? name).isSome = (state.graph.interface? name).isSome ∧
        ((state.graph.interface? name).isSome → next.graph.implementsOf .interfaces name =
          state.graph.implementsOf .interfaces name ++ includedIn statements name)
  | [], _, _, h, _ => by
    cases foldlM_nil_eq_ok_iff.1 h
    simp [includedIn]
  | statement :: rest, state, next, h, name => by
    obtain ⟨mid, hmid, hrest⟩ := foldlM_cons_eq_ok_iff.1 h
    obtain ⟨hfirst, hlist⟩ := implementsOf_foldInclude hmid name
    obtain ⟨hlast, htail⟩ := implementsOf_foldlM_includes hrest name
    refine ⟨hlast.trans hfirst, fun hsome => ?_⟩
    have happend : includedIn (statement :: rest) name =
        includedIn [statement] name ++ includedIn rest name := by
      rw [includedIn, includedIn, includedIn, ← List.map_append, ← List.filter_append]
      rfl
    rw [htail (hfirst ▸ hsome), hlist hsome, happend, List.append_assoc]

/-- No statement changes a mixin. -/
theorem Graph.mixins_foldIncludes {fragments : List Fragment}
    (h : foldIncludes options fragments state = .ok next) :
    next.graph.mixins = state.graph.mixins := by
  refine foldlM_keeps (P := fun s => s.graph.mixins = state.graph.mixins) ?_ rfl h
  intro statement _ s t hs ht
  rcases foldInclude_cases ht with ⟨-, hg⟩ | ⟨i, -, hg⟩
  · rw [hg, hs]
  · rw [hg, ← hs]
    rfl

end Includes

/-! ## Runs -/

/-- What is merged into a graph in the course of a run lists no mixin more than once. -/
structure Corrections.ImplementsDistinct (corrections : Corrections) : Prop where
  additions : corrections.additions.ImplementsDistinct
  overrides : corrections.overrides.ImplementsDistinct
  comments : corrections.comments.ImplementsDistinct

section Phases

variable {options : Options} {baseline : Graph} {fragments : List Fragment}
  {corrections : Corrections}

/-- What the baseline and the definitions of the fragments have, the merge of them has. -/
theorem Phases.merged_iff (p : Phases options baseline fragments corrections) {P : Graph → Prop}
    (hP : ∀ base addition result, base.merge .standard addition = .ok result →
      (P result ↔ P base ∨ P addition))
    (hstamp : ∀ f : Fragment, P f.stampDeprecated.definitions ↔ P f.definitions) :
    P p.merged ↔ ∃ source ∈ baseline :: fragments.map (·.definitions), P source := by
  rw [mergeStandard_gathers hP p.merging, List.exists_mem_cons_iff]
  simp only [List.mem_map, exists_exists_and_eq_and, hstamp]

/-- The merge of all definitions lists the mixins that one of them lists. -/
theorem Phases.mem_merged_iff (p : Phases options baseline fragments corrections) (c : Collection)
    (name mixin : String) : mixin ∈ p.merged.implementsOf c name ↔
      ∃ source ∈ baseline :: fragments.map (·.definitions), mixin ∈ source.implementsOf c name := by
  refine p.merged_iff (P := fun g => mixin ∈ g.implementsOf c name) ?_ fun f => ?_
  · exact fun _ _ _ h => Graph.mem_implementsOf_merge h c name mixin
  · rw [Graph.implementsOf_eq_of_listing c name f.listing_stampDeprecated]

theorem Phases.isSome_merged_iff (p : Phases options baseline fragments corrections)
    (name : String) : (p.merged.interface? name).isSome ↔
      ∃ source ∈ baseline :: fragments.map (·.definitions), (source.interface? name).isSome := by
  refine p.merged_iff (P := fun g => (g.interface? name).isSome = true) ?_ fun f => ?_
  · intro base addition result h
    rw [← Bool.or_eq_true]
    exact Bool.eq_iff_iff.1 (Graph.joined_merge h .interfaces name).isSome_eq
  · exact Bool.eq_iff_iff.1 (Graph.isSome_eq_of_listing .interfaces name f.listing_stampDeprecated)

/-- The merge of all definitions lists no mixin more than once. -/
theorem Phases.nodup_merged (p : Phases options baseline fragments corrections)
    (hb : baseline.ImplementsDistinct) (hf : ∀ f ∈ fragments, f.definitions.ImplementsDistinct)
    (c : Collection) (name : String) : (p.merged.implementsOf c name).Nodup := by
  have hkept : ∀ mixin, ¬ 1 < (p.merged.implementsOf c name).count mixin := by
    intro mixin
    refine foldlM_keeps (P := fun g => ¬ 1 < (g.implementsOf c name).count mixin) ?_ ?_ p.merging
    · intro stamped hstamped g next hg hnext
      obtain ⟨f, hmem, rfl⟩ := List.mem_map.1 hstamped
      refine mt (Graph.repeats_merge (mergeStandard_step hnext) ?_ mixin).1 hg
      rw [Graph.implementsOf_eq_of_listing c name f.listing_stampDeprecated]
      exact (hf f hmem).nodup c name
    · exact Nat.not_lt.2 (List.nodup_iff_count.1 (hb.nodup c name) mixin)
  exact List.nodup_iff_count.2 fun mixin => Nat.not_lt.1 (hkept mixin)

/-- Behind the mixins of the definitions stand those of the statements, in an interface that some
definition has. -/
theorem Phases.implementsOf_included (p : Phases options baseline fragments corrections)
    (name : String) : p.included.graph.implementsOf .interfaces name =
      if (p.merged.interface? name).isSome then
        p.merged.implementsOf .interfaces name ++ includedIn (fragments.flatMap (·.includes)) name
      else [] := by
  have hincludes : (fragments.map Fragment.stampDeprecated).flatMap (·.includes) =
      fragments.flatMap (·.includes) := by
    simp only [List.flatMap_map, Fragment.includes_stampDeprecated]
  have hincluding := p.including
  rw [foldIncludes, hincludes] at hincluding
  have hfolded := Graph.listing_foldPartials p.folding
  have hpresent : (p.folded.graph.interface? name).isSome = (p.merged.interface? name).isSome :=
    Graph.isSome_eq_of_listing .interfaces name hfolded
  have hlist := Graph.implementsOf_eq_of_listing .interfaces name hfolded
  obtain ⟨hkept, happend⟩ := Graph.implementsOf_foldlM_includes hincluding name
  split
  · rename_i hsome
    rw [happend (hpresent ▸ hsome), hlist]
  · rename_i hnone
    have habsent : p.included.graph.interface? name = none := by
      rw [← Option.not_isSome_iff_eq_none, hkept, hpresent]
      exact hnone
    rw [Graph.implementsOf, Graph.implements?, Collection.get?, habsent]
    rfl

/-- Mixins include what the merge of all definitions has them include. -/
theorem Phases.implementsOf_included_mixins (p : Phases options baseline fragments corrections)
    (name : String) : p.included.graph.implementsOf .mixins name =
      p.merged.implementsOf .mixins name := by
  have hmixins := Graph.mixins_foldIncludes p.including
  rw [← Graph.implementsOf_eq_of_listing .mixins name (Graph.listing_foldPartials p.folding)]
  simp only [Graph.implementsOf, Graph.implements?, Collection.get?, Graph.mixin?, hmixins]

/-- Behind the removal of types nothing is repeated that was not. -/
theorem Phases.repeats_result_iff (p : Phases options baseline fragments corrections)
    (hc : corrections.ImplementsDistinct) (c : Collection) (name mixin : String) :
    1 < (p.result.implementsOf c name).count mixin ↔
      1 < (p.pruned.implementsOf c name).count mixin := by
  rw [Graph.implementsOf_eq_of_listing c name (Graph.listing_applyExposureOverrides p.exposing),
    Graph.repeats_merge (mapError_eq_ok_iff.1 p.commenting) (hc.comments.nodup c name),
    Graph.repeats_merge (mapError_eq_ok_iff.1 p.overriding) (hc.overrides.nodup c name),
    Graph.repeats_merge (mapError_eq_ok_iff.1 p.adding) (hc.additions.nodup c name)]

end Phases

theorem count_filter_gt_one {l : List String} {keeps : String → Bool} {name : String} :
    1 < (l.filter keeps).count name ↔ keeps name = true ∧ 1 < l.count name := by
  by_cases h : keeps name = true
  · rw [List.count_filter h, and_iff_right h]
  · have hnone : name ∉ l.filter keeps := fun hmem => h (List.mem_filter.1 hmem).2
    simp [List.count_eq_zero_of_not_mem hnone, h]

/-- **An interface includes a mixin twice through includes statements alone.** In a run whose baseline,
fragments and corrections list no mixin twice, no mixin lists one twice in the result. An interface does
exactly if the removal template leaves the mixin in its list, some definition has the interface, and
two statements include the mixin in it, or one does and a definition lists the mixin. -/
theorem integrate_repeats_iff {options : Options} {baseline : Graph} {fragments : List Fragment}
    {corrections : Corrections} {g : Graph} {report : Report} (hb : baseline.Tidy)
    (hf : ∀ f ∈ fragments, f.Tidy) (hbd : baseline.ImplementsDistinct)
    (hfd : ∀ f ∈ fragments, f.definitions.ImplementsDistinct) (hc : corrections.ImplementsDistinct)
    (h : integrate options baseline fragments corrections = .ok (g, report)) :
    (∀ name, (g.implementsOf .mixins name).Nodup) ∧
    ∀ name mixin, 1 < (g.implementsOf .interfaces name).count mixin ↔
      Template.keepsName (corrections.removals.saidOfImplements .interfaces name) mixin = true ∧
      (∃ source ∈ baseline :: fragments.map (·.definitions), (source.interface? name).isSome) ∧
      (1 < (fragments.flatMap (·.includes)).count ⟨name, mixin⟩ ∨
        ⟨name, mixin⟩ ∈ fragments.flatMap (·.includes) ∧
          ∃ source ∈ baseline :: fragments.map (·.definitions),
            mixin ∈ source.implementsOf .interfaces name) := by
  obtain ⟨p, rfl, -⟩ := integrate_phases h
  have htidy := p.tidy_included hb hf
  refine ⟨fun name => ?_, fun name mixin => ?_⟩
  · refine List.nodup_iff_count.2 fun mixin => Nat.not_lt.1 fun hrepeats => ?_
    rw [p.repeats_result_iff hc, Graph.implementsOf_prune htidy p.pruning, count_filter_gt_one,
      p.implementsOf_included_mixins] at hrepeats
    have hone := List.nodup_iff_count.1 (p.nodup_merged hbd hfd .mixins name) mixin
    omega
  · rw [p.repeats_result_iff hc, Graph.implementsOf_prune htidy p.pruning, count_filter_gt_one,
      p.implementsOf_included, ← p.isSome_merged_iff, ← p.mem_merged_iff]
    refine and_congr_right fun _ => ?_
    have hone := List.nodup_iff_count.1 (p.nodup_merged hbd hfd .interfaces name) mixin
    by_cases hsome : (p.merged.interface? name).isSome
    · rw [if_pos hsome, and_iff_right hsome, List.count_append, count_includedIn,
        ← List.count_pos_iff, ← List.count_pos_iff]
      omega
    · simp [hsome]

/-- An interface that includes a mixin. -/
def documentGraph : Graph where
  interfaces := some (.ofList [("Document", {
    name := "Document", implements := some ["ParentNode"] })])

/-- A fragment with the statement that it does. -/
def documentFragment : Fragment where
  includes := [⟨"Document", "ParentNode"⟩]

/-- No input lists the mixin twice, the result does. -/
theorem documentGraph_repeats :
    documentGraph.ImplementsDistinct ∧ documentFragment.definitions.ImplementsDistinct ∧
      ∃ g report, integrate {} documentGraph [documentFragment] {} = .ok (g, report) ∧
        g.implementsOf .interfaces "Document" = ["ParentNode", "ParentNode"] :=
  ⟨by decide +kernel, by decide +kernel, _, _, rfl, by decide +kernel⟩

end IdlDecls
