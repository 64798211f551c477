import IdlDecls.Proofs.Exposure.Overriding
import IdlDecls.Proofs.Integration.Exposed
import IdlDecls.Proofs.Integration.Fragments
import IdlDecls.Proofs.Merge.Conventions
import IdlDecls.Proofs.Removal.Conventions

/-!
# Integrating under a convention

Every phase of an integration leads from a graph that follows a convention to another one: merging and
pruning do (`Graph.Follows.merge`, `Graph.Follows.prune`), and stamping, folding and exposing put
nothing into an entry that the entry, its partial definitions or its overriding exposure did not have.
So the result of a run follows every convention that its inputs follow (`Phases.follows_result`).
-/

namespace IdlDecls

open Merge Merging

variable {c : Convention}

/-! ## Exposing -/

theorem Convention.exposure_apply {mode : ExposureMode} {e : Exposure} {place : Option Exposure}
    (he : c.exposure e) (hplace : ∀ x ∈ place, c.exposure x) :
    ∀ x ∈ mode.apply e place, c.exposure x := by
  intro x hx
  cases mode with
  | force =>
    cases hx
    exact he
  | inherit =>
    rcases Option.or_eq_some_iff.1 hx with hx | ⟨-, hx⟩
    · exact c.exposure_nonempty? hplace x hx
    · cases hx
      exact he

theorem Interface.Follows.expose {i : Interface} {mode : ExposureMode} {e : Exposure}
    (hi : i.Follows c) (he : c.exposure e) : (i.expose mode e).Follows c where
  constants := hi.constants.map fun _ _ hx =>
    { hx with exposed := Convention.exposure_apply he hx.exposed }
  methods := hi.methods.map fun _ _ hx =>
    { hx with exposed := Convention.exposure_apply he hx.exposed }
  properties := hi.properties.map fun _ _ hx =>
    { hx with exposed := Convention.exposure_apply he hx.exposed }
  constructor x hx := by
    obtain ⟨old, hold, rfl⟩ := Option.map_eq_some_iff.1 hx
    have hx := hi.constructor old hold
    exact { hx with exposed := Convention.exposure_apply he hx.exposed }
  exposed := Convention.exposure_apply he hi.exposed
  overrideExposed := hi.overrideExposed
  iterator := hi.iterator
  extra := hi.extra

theorem Interface.FollowsAt.applyOverride {i : Interface} {key : String} (hi : i.FollowsAt c key) :
    i.applyOverride.FollowsAt c key := by
  cases he : i.overrideExposed with
  | none => rwa [Interface.applyOverride, he]
  | some e =>
    rw [Interface.applyOverride_of_some he]
    exact { hi.toFollows.expose (hi.overrideExposed e he) with name := hi.name }

theorem Graph.Follows.applyExposureOverrides {g result : Graph} {count : Nat} (hg : g.Follows c)
    (h : g.applyExposureOverrides = .ok (result, count)) : result.Follows c := by
  obtain ⟨-, rfl, -⟩ := Graph.applyExposureOverrides_eq_ok_iff.1 h
  exact { hg with interfaces := hg.interfaces.map fun _ _ hi => hi.applyOverride }

/-! ## Folding -/

/-- A definition keeps its name when partial definitions are folded into it. -/
theorem Interface.FollowsAt.foldPartial {base addition merged : Interface} {key : String}
    (hb : base.FollowsAt c key) (ha : addition.Follows c)
    (h : base.foldPartial addition = .ok merged) : merged.FollowsAt c key := by
  have hexposed : (base.exposedFor addition).Follows c := by
    rw [Interface.exposedFor]
    cases he : effectiveExposure addition.exposed base.exposed with
    | none => exact ha
    | some e =>
      refine ha.expose ?_
      rcases Option.or_eq_some_iff.1 he with hown | ⟨-, hbase⟩
      · exact c.exposure_nonempty? ha.exposed e hown
      · exact c.exposure_nonempty? hb.exposed e hbase
  have hmerge := Interface.foldPartial_iff_mergeMembers.1 h
  obtain ⟨-, -, -, heq⟩ := Interface.mergeMembers_eq_ok_iff.1 hmerge
  exact { hb.toFollows.mergeMembers hexposed hmerge with name := by rw [heq]; exact hb.name }

theorem Graph.Follows.get? {g : Graph} (hg : g.Follows c) {collection : Collection} {name : String}
    {i : Interface} (hi : collection.get? g name = some i) : i.FollowsAt c name := by
  cases collection with
  | interfaces => exact hg.interfaces name i hi
  | mixins => exact hg.mixins name i hi

theorem EachEntry.modify {α : Type} {P : String → α → Prop} {entries : Option (Keyed α)}
    (h : EachEntry P entries) {name : String} {value : α} (hvalue : P name value) :
    EachEntry P (entries.map (·.modify name fun _ => value)) :=
  h.map fun key old hold => by
    by_cases hkey : key = name
    · rw [if_pos hkey, hkey]
      exact hvalue
    · rw [if_neg hkey]
      exact hold

theorem Graph.Follows.replace {g : Graph} (hg : g.Follows c) (collection : Collection)
    {name : String} {i : Interface} (hi : i.FollowsAt c name) :
    (collection.replace g name i).Follows c := by
  cases collection with
  | interfaces => exact { hg with interfaces := hg.interfaces.modify hi }
  | mixins => exact { hg with mixins := hg.mixins.modify hi }

theorem Graph.Follows.foldPartialInterface {options : Options} {targets : List Collection}
    {state next : Folded} {addition : Interface} (hs : state.graph.Follows c)
    (ha : addition.Follows c) (h : foldPartialInterface options targets state addition = .ok next) :
    next.graph.Follows c := by
  rcases foldPartialInterface_cases h with ⟨-, hg⟩ | ⟨d, base, merged, hl, hm, hg⟩
  · exact hg ▸ hs
  · rw [hg]
    exact hs.replace d ((hs.get? (Graph.get?_of_locate? hl)).foldPartial ha hm)

theorem Graph.Follows.foldPartialDictionary {options : Options} {state next : Folded}
    {addition : Dictionary} (hs : state.graph.Follows c) (ha : addition.Follows c)
    (h : foldPartialDictionary options state addition = .ok next) : next.graph.Follows c := by
  rcases foldPartialDictionary_cases h with ⟨-, hg⟩ | ⟨base, merged, hd, hm, hg⟩
  · exact hg ▸ hs
  · have hb := hs.dictionaries _ base hd
    have hname : merged.name = base.name := by
      simp only [Dictionary.mergeMembers, within_eq_ok_iff, bind_eq_ok_iff, pure_eq_ok_iff] at hm
      obtain ⟨_, -, rfl⟩ := hm
      rfl
    rw [hg]
    exact { hs with
      dictionaries := hs.dictionaries.modify
        { hb.toFollows.mergeMembers ha hm with name := hname ▸ hb.name } }

theorem Graph.Follows.foldInclude {options : Options} {state next : Folded} {statement : Include}
    (hs : state.graph.Follows c) (h : foldInclude options state statement = .ok next) :
    next.graph.Follows c := by
  rcases foldInclude_cases h with ⟨-, hg⟩ | ⟨i, hi, hg⟩
  · exact hg ▸ hs
  · have hi := hs.interfaces _ i hi
    rw [hg]
    exact hs.replace .interfaces { hi with }

/-! ## Fragments -/

theorem Graph.Follows.mergeStandard {g merged : Graph} {fragments : List Fragment}
    (hg : g.Follows c) (hf : ∀ f ∈ fragments, f.Follows c)
    (h : mergeStandard g fragments = .ok merged) : merged.Follows c :=
  foldlM_keeps (fun f hmem _ _ hs hnext =>
    hs.merge (hf f hmem).definitions (mergeStandard_step hnext)) hg h

theorem Graph.Follows.foldPartials {options : Options} {fragments : List Fragment}
    {state next : Folded} (hs : state.graph.Follows c) (hf : ∀ f ∈ fragments, f.Follows c)
    (h : foldPartials options fragments state = .ok next) : next.graph.Follows c := by
  refine foldlM_keeps (P := fun s => s.graph.Follows c) (fun f hmem s t hs ht => ?_) hs h
  have hf := hf f hmem
  simp only [foldFragment, bind_eq_ok_iff] at ht
  obtain ⟨interfaces, hinterfaces, mixins, hmixins, hdictionaries⟩ := ht
  have hinterfaces := foldlM_keeps (P := fun s => s.graph.Follows c)
    (fun i hi _ _ hs => hs.foldPartialInterface (hf.partialInterfaces i hi)) hs hinterfaces
  have hmixins := foldlM_keeps (P := fun s => s.graph.Follows c)
    (fun i hi _ _ hs => hs.foldPartialInterface (hf.partialMixins i hi)) hinterfaces hmixins
  exact foldlM_keeps (P := fun s => s.graph.Follows c)
    (fun d hd _ _ hs => hs.foldPartialDictionary (hf.partialDictionaries d hd)) hmixins hdictionaries

/-! ## Runs -/

/-- All corrections follow a convention; a removal template has nothing that could. -/
structure Corrections.Follow (c : Convention) (corrections : Corrections) : Prop where
  additions : corrections.additions.Follows c
  overrides : corrections.overrides.Follows c
  comments : corrections.comments.Follows c

section Phases

variable {options : Options} {baseline : Graph} {fragments : List Fragment}
  {corrections : Corrections}

/-- What is pruned follows the convention of the baseline and the fragments. -/
theorem Phases.follows_included (p : Phases options baseline fragments corrections)
    (hb : baseline.Follows c) (hf : ∀ f ∈ fragments, f.Follows c) :
    p.included.graph.Follows c := by
  have hstamped : ∀ f ∈ fragments.map Fragment.stampDeprecated, f.Follows c :=
    List.forall_mem_map.2 fun f hmem => (hf f hmem).stampDeprecated
  have hfolded := (hb.mergeStandard hstamped p.merging).foldPartials hstamped p.folding
  exact foldlM_keeps (P := fun s => s.graph.Follows c) (fun _ _ _ _ hs => hs.foldInclude) hfolded
    p.including

/-- **A run keeps to every convention that its inputs keep to.** -/
theorem Phases.follows_result (p : Phases options baseline fragments corrections)
    (hb : baseline.Follows c) (hf : ∀ f ∈ fragments, f.Follows c) (hc : corrections.Follow c) :
    p.result.Follows c := by
  have hpruned := (p.follows_included hb hf).prune p.pruning
  have hadded := hpruned.merge hc.additions (mapError_eq_ok_iff.1 p.adding)
  have hoverridden := hadded.merge hc.overrides (mapError_eq_ok_iff.1 p.overriding)
  have hcommented := hoverridden.merge hc.comments (mapError_eq_ok_iff.1 p.commenting)
  exact hcommented.applyExposureOverrides p.exposing

end Phases

end IdlDecls
