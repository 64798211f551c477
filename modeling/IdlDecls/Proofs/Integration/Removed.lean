import IdlDecls.Proofs.Integration.Isolation
import IdlDecls.Proofs.Merge.Members

/-!
# What comes back after removal

A merge holds something at a place exactly if one of its sides does (`Place.isIn_merge`), and the
phases behind the removal of types are merges and a change of exposures. So an integration ends with
an entry or a member exactly if pruning left it or some correction names it (`integrate_isIn`). The
comments count as well: they are merged as definitions are, so a comment on something that was removed
brings it back (`appletGraph_restored_by_comment`).
-/

namespace IdlDecls

open Merge Merging

/-! ## Places -/

/-- Whether a dictionary has a member under a name. -/
def Dictionary.hasMember (d : Dictionary) (name : String) : Bool :=
  (lookup? d.members name).isSome

/-- A place that a removal template can name. -/
inductive Place where
  | entry (c : Collection) (name : String)
  | member (c : Collection) (name : String) (kind : MemberKind) (member : String)
  | dictionary (name : String)
  | dictionaryMember (name member : String)
deriving DecidableEq, Repr

/-- Whether a graph holds something at a place. -/
def Place.isIn (g : Graph) : Place → Bool
  | entry c name => (c.get? g name).isSome
  | member c name kind m => (c.get? g name).any (·.hasMember m kind)
  | dictionary name => (g.dictionary? name).isSome
  | dictionaryMember name m => (g.dictionary? name).any (·.hasMember m)

/-! ## Merging -/

theorem Dictionary.hasMember_merge {policy : MergePolicy} {base addition result : Dictionary}
    (h : base.merge policy addition = .ok result) (name : String) :
    result.hasMember name = (base.hasMember name || addition.hasMember name) :=
  isSome_lookup?_collection (Dictionary.merge_eq_ok_iff.1 h).members name

/-- **A merge holds what its sides hold**, under every policy. -/
theorem Place.isIn_merge {policy : MergePolicy} {base addition result : Graph}
    (h : base.merge policy addition = .ok result) (place : Place) :
    place.isIn result = (place.isIn base || place.isIn addition) := by
  have hm := Graph.merge_eq_ok_iff.1 h
  cases place with
  | entry c name =>
    cases c with
    | interfaces => exact isSome_lookup?_collection hm.interfaces name
    | mixins => exact isSome_lookup?_collection hm.mixins name
  | member c name kind m =>
    have hjoin : ∀ old new merged : Interface, old.merge policy new = .ok merged →
        merged.hasMember m kind = (old.hasMember m kind || new.hasMember m kind) :=
      fun _ _ _ h => Interface.hasMember_merge h m kind
    cases c with
    | interfaces => exact any_lookup?_collection hjoin hm.interfaces name
    | mixins => exact any_lookup?_collection hjoin hm.mixins name
  | dictionary name => exact isSome_lookup?_collection hm.dictionaries name
  | dictionaryMember name m =>
    exact any_lookup?_collection (fun _ _ _ h => Dictionary.hasMember_merge h m) hm.dictionaries name

/-! ## Exposing -/

theorem Interface.hasMember_applyOverride (i : Interface) (name : String) (kind : MemberKind) :
    i.applyOverride.hasMember name kind = i.hasMember name kind := by
  rw [applyOverride]
  cases i.overrideExposed with
  | none => rfl
  | some exposure => exact Interface.hasMember_expose .force exposure i name kind

/-- Overriding exposures leave every entry and every member where it is. -/
theorem Place.isIn_applyExposureOverrides {g result : Graph} {count : Nat}
    (h : g.applyExposureOverrides = .ok (result, count)) (place : Place) :
    place.isIn result = place.isIn g := by
  rw [Graph.applyExposureOverrides] at h
  split at h
  · cases h
  · cases h
    have hinterface : ∀ name, lookup? (g.interfaces.map (·.map fun _ i => i.applyOverride)) name =
        (g.interface? name).map Interface.applyOverride := lookup?_map_values _ _
    cases place with
    | entry c name =>
      cases c with
      | interfaces => simp only [isIn, Collection.get?, Graph.interface?, hinterface, Option.isSome_map]
      | mixins => rfl
    | member c name kind m =>
      cases c with
      | interfaces =>
        simp only [isIn, Collection.get?, Graph.interface?, hinterface, Option.any_map]
        congr 1
        funext i
        exact i.hasMember_applyOverride m kind
      | mixins => rfl
    | dictionary => rfl
    | dictionaryMember => rfl

/-! ## Integration -/

/-- What the phases behind the removal of types leave at a place. -/
theorem Phases.isIn_result {options : Options} {baseline : Graph} {fragments : List Fragment}
    {corrections : Corrections} (p : Phases options baseline fragments corrections)
    (place : Place) :
    place.isIn p.result = (place.isIn p.pruned || place.isIn corrections.additions ||
      place.isIn corrections.overrides || place.isIn corrections.comments) := by
  rw [place.isIn_applyExposureOverrides p.exposing,
    place.isIn_merge (mapError_eq_ok_iff.1 p.commenting),
    place.isIn_merge (mapError_eq_ok_iff.1 p.overriding),
    place.isIn_merge (mapError_eq_ok_iff.1 p.adding)]

/-- **What is gone comes back exactly if a correction names it.** The comments are a correction like
the others here. -/
theorem integrate_isIn {options : Options} {baseline : Graph} {fragments : List Fragment}
    {corrections : Corrections} {g : Graph} {report : Report}
    (h : integrate options baseline fragments corrections = .ok (g, report)) :
    ∃ p : Phases options baseline fragments corrections, p.result = g ∧ ∀ place : Place,
      place.isIn g = (place.isIn p.pruned || place.isIn corrections.additions ||
        place.isIn corrections.overrides || place.isIn corrections.comments) := by
  obtain ⟨p, rfl, -⟩ := integrate_phases h
  exact ⟨p, rfl, p.isIn_result⟩

/-- What a removal template says of an interface or a mixin. -/
def Collection.said (c : Collection) (template : Template) (name : String) : Option Template :=
  match c with
  | interfaces => ((template.at? "interfaces").bind (·.at? "interface")).bind (·.at? name)
  | mixins => ((template.at? "mixins").bind (·.at? "mixin")).bind (·.at? name)

theorem PrunedEntry.eq_none {template : Template} {field key name : String}
    {old new : Option Interface} (h : PrunedEntry template field key name old new)
    (hsaid : ((template.at? field).bind (·.at? key)).bind (·.at? name) = some .remove) :
    new = none := by
  obtain ⟨kept, hkept, hread⟩ := h
  rw [hsaid, pruned_remove_iff] at hkept
  subst hkept
  exact hread

theorem Graph.get?_prune_of_said {g pruned : Graph} {template : Template} {c : Collection}
    {name : String} (hg : g.SeparateExtra) (h : g.prune template = .ok pruned)
    (hsaid : c.said template name = some .remove) : c.get? pruned name = none := by
  cases c with
  | interfaces => exact (Graph.interface?_prune hg h name).eq_none hsaid
  | mixins => exact (Graph.mixin?_prune hg h name).eq_none hsaid

/-- **A removed interface or mixin stays away** if no correction names it. -/
theorem integrate_removes {options : Options} {baseline : Graph} {fragments : List Fragment}
    {corrections : Corrections} {g : Graph} {report : Report} {c : Collection} {name : String}
    (hseparate : baseline.SeparateExtra ∧ ∀ f ∈ fragments, f.definitions.SeparateExtra)
    (hsaid : c.said corrections.removals name = some .remove)
    (hadditions : c.get? corrections.additions name = none)
    (hoverrides : c.get? corrections.overrides name = none)
    (hcomments : c.get? corrections.comments name = none)
    (h : integrate options baseline fragments corrections = .ok (g, report)) :
    c.get? g name = none := by
  obtain ⟨p, rfl, -⟩ := integrate_phases h
  have hpruned := Graph.get?_prune_of_said (p.separateExtra hseparate.1 hseparate.2) p.pruning hsaid
  have hplace := p.isIn_result (.entry c name)
  simpa [Place.isIn, hpruned, hadditions, hoverrides, hcomments] using hplace

/-- A baseline with an interface that is to be removed. -/
def appletGraph : Graph where
  interfaces := some (.ofList [("Applet", { name := "Applet" }), ("Port", { name := "Port" })])

/-- The removal of the interface, and a comment on it that was left behind. -/
def appletCorrections : Corrections where
  removals := .nested [("interfaces", .nested [("interface", .names ["Applet"])])]
  comments := {
    interfaces := some (.ofList [("Applet", { name := "Applet", comment := some "Obsolete." })]) }

/-- The comment brings the interface back. -/
theorem appletGraph_restored_by_comment :
    (∃ pruned, appletGraph.prune appletCorrections.removals = .ok pruned ∧
      pruned.interface? "Applet" = none) ∧
    appletCorrections.additions = ∅ ∧ appletCorrections.overrides = ∅ ∧
    ∃ g report, integrate {} appletGraph [] appletCorrections = .ok (g, report) ∧
      g.interface? "Applet" = some { name := "Applet", comment := some "Obsolete." } ∧
      ∃ p : Phases {} appletGraph [] appletCorrections, p.result = g ∧ ∀ place : Place,
        place.isIn g = (place.isIn p.pruned || place.isIn appletCorrections.additions ||
          place.isIn appletCorrections.overrides || place.isIn appletCorrections.comments) := by
  have hprune : appletGraph.prune appletCorrections.removals =
      .ok { interfaces := some (.ofList [("Port", { name := "Port" })]) } := by decide +kernel
  have h : integrate {} appletGraph [] appletCorrections =
      .ok ({ interfaces := some (.ofList
        [("Applet", { name := "Applet", comment := some "Obsolete." }),
          ("Port", { name := "Port" })]) }, {}) := by decide +kernel
  exact ⟨⟨_, hprune, by decide +kernel⟩, rfl, rfl, _, _, h, by decide +kernel, integrate_isIn h⟩

end IdlDecls
