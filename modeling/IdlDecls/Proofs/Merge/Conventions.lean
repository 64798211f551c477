import IdlDecls.Proofs.Merge.Inversion
import IdlDecls.Proofs.Merge.Members
import IdlDecls.Proofs.Model.Conventions

/-!
# Merging under a convention

A merge takes over what one side has and joins what both sides have, and no kind of field turns that
into something that a convention forbids. So under every policy the merge of two graphs that follow a
convention follows it as well (`Graph.Follows.merge`), and so does a definition that partial ones have
been folded into (`Interface.Follows.mergeMembers`, `Dictionary.Follows.mergeMembers`).
-/

namespace IdlDecls

open Merge Merging

variable {α : Type}

/-! ## Fields -/

/-- A settled value is one of the two that it was settled from. -/
theorem eq_or_eq_of_settleBy {β : Type} [DecidableEq β] {look : α → β} {active : Policy}
    {old new merged : α} (h : settleBy look active old new = .ok merged) :
    merged = old ∨ merged = new := by
  unfold settleBy at h
  split at h
  · exact Or.inl (Except.ok.inj h).symm
  · cases active with
    | reject | extend => cases h
    | override => exact Or.inr (Except.ok.inj h).symm

theorem Extra.Beside.merge {keys : List String} {active : Policy} {base addition result : Extra}
    (hb : base.Beside keys) (ha : addition.Beside keys)
    (h : extras active base addition = .ok result) : result.Beside keys := by
  intro key hkey
  have hjoin := Keyed.get?_joinM h key
  rw [hb key hkey, ha key hkey] at hjoin
  exact Joined.none_left_iff.1 hjoin

/-- What holds of the values of both sides holds of the merged one. -/
theorem forall_mem_literal {P : Json → Prop} {active : Policy} {base addition result : Option Json}
    (hb : ∀ j ∈ base, P j) (ha : ∀ j ∈ addition, P j)
    (h : literal active base addition = .ok result) : ∀ j ∈ result, P j := by
  refine (optional_eq_ok_iff.1 h).all (fun old new merged hold hnew hm => ?_) hb ha
  rcases eq_or_eq_of_settleBy hm with rfl | rfl
  · exact hold
  · exact hnew

theorem Convention.exposure_nonempty? {c : Convention} {e : Option Exposure}
    (h : ∀ x ∈ e, c.exposure x) : ∀ x ∈ Exposure.nonempty? e, c.exposure x :=
  fun x hx => h x (Option.filter_eq_some_iff.1 hx).1

theorem Convention.exposure_merge {c : Convention} {active : Policy}
    {base addition result : Option Exposure} (hb : ∀ e ∈ base, c.exposure e)
    (ha : ∀ e ∈ addition, c.exposure e) (h : Merge.exposure active base addition = .ok result) :
    ∀ e ∈ result, c.exposure e := by
  unfold Merge.exposure at h
  have hadded := c.exposure_nonempty? ha
  generalize Exposure.nonempty? addition = added at h hadded
  cases added with
  | none =>
    cases h
    exact hb
  | some value =>
    refine (optional_eq_ok_iff.1 h).all (fun old new merged hold hnew hm => ?_)
      (c.exposure_nonempty? hb) hadded
    rcases eq_or_eq_of_settleBy hm with rfl | rfl
    · exact hold
    · exact c.extend hold hnew

/-- What merging two entries keeps of both, merging two collections keeps of every entry. -/
theorem EachEntry.collection {P : String → α → Prop} {level : Policy} {field entries : String}
    {join : α → α → Merging α} {base addition result : Option (Keyed α)}
    (hjoin : ∀ key old new merged, P key old → P key new → join old new = .ok merged →
      P key merged)
    (hb : EachEntry P base) (ha : EachEntry P addition)
    (h : collection level field entries join base addition = .ok result) : EachEntry P result := by
  intro key
  have hjoined : Joined (fun old new merged => join old new = .ok merged) (lookup? base key)
      (lookup? addition key) (lookup? result key) :=
    joined_lookup?_collection (fun _ _ _ hm => hm) h key
  exact hjoined.all (hjoin key) (hb key) (ha key)

/-- What merging two items keeps of both, merging two lists keeps of every item. -/
theorem forall_mem_identified {P : α → Prop} {level : Policy} {identity : α → String}
    {join : α → α → Merging α} {base addition result : List α}
    (hjoin : ∀ old new merged, P old → P new → join old new = .ok merged → P merged)
    (hb : ∀ x ∈ base, P x) (ha : ∀ x ∈ addition, P x)
    (h : identified level identity join base addition = .ok result) : ∀ x ∈ result, P x := by
  refine foldlM_keeps (P := fun l => ∀ x ∈ l, P x) ?_ hb h
  intro item hitem l next hl hnext
  rcases identifiedItem_cases hnext with ⟨-, rfl⟩ | ⟨front, old, back, new, rfl, -, -, -, hnew, rfl⟩
  · simpa [or_imp, forall_and] using ⟨hl, ha item hitem⟩
  · rw [List.forall_mem_append, List.forall_mem_cons] at hl ⊢
    exact ⟨hl.1, hjoin old item new hl.2.1 (ha item hitem) hnew, hl.2.2⟩

/-! ## Members -/

section Members

variable {c : Convention} {active : Policy} {key : String}

theorem Constant.Follows.merge {base addition result : Constant} (hb : base.Follows c key)
    (ha : addition.Follows c key) (h : base.merge active addition = .ok result) :
    result.Follows c key := by
  have hm := Constant.merge_eq_ok_iff.1 h
  exact
    { value := forall_mem_literal hb.value ha.value hm.value
      extra := hb.extra.merge ha.extra hm.extra
      name := hm.name ▸ hb.name
      exposed := Convention.exposure_merge hb.exposed ha.exposed hm.exposed }

theorem Method.Follows.merge {base addition result : Method} (hb : base.Follows c key)
    (ha : addition.Follows c key) (h : base.merge active addition = .ok result) :
    result.Follows c key := by
  have hm := Method.merge_eq_ok_iff.1 h
  exact
    { signatures := hm.signatures ▸ List.forall_mem_append.2 ⟨hb.signatures, ha.signatures⟩
      extra := hb.extra.merge ha.extra hm.extra
      name := hm.name ▸ hb.name
      exposed := Convention.exposure_merge hb.exposed ha.exposed hm.exposed }

theorem Property.Follows.merge {base addition result : Property} (hb : base.Follows c key)
    (ha : addition.Follows c key) (h : base.merge active addition = .ok result) :
    result.Follows c key := by
  have hm := Property.merge_eq_ok_iff.1 h
  exact
    { extra := hb.extra.merge ha.extra hm.extra
      name := hm.name ▸ hb.name
      exposed := Convention.exposure_merge hb.exposed ha.exposed hm.exposed }

theorem Constructor.Follows.merge {base addition result : Constructor} (hb : base.Follows c)
    (ha : addition.Follows c) (h : base.merge active addition = .ok result) : result.Follows c := by
  have hm := Constructor.merge_eq_ok_iff.1 h
  exact
    { signatures := hm.signatures ▸ List.forall_mem_append.2 ⟨hb.signatures, ha.signatures⟩
      extra := hb.extra.merge ha.extra hm.extra
      exposed := Convention.exposure_merge hb.exposed ha.exposed hm.exposed }

theorem Member.Follows.merge {base addition result : Member} (hb : base.Follows c key)
    (ha : addition.Follows c key) (h : base.merge active addition = .ok result) :
    result.Follows c key := by
  have hm := Member.merge_eq_ok_iff.1 h
  exact
    { default := forall_mem_literal hb.default ha.default hm.default
      extra := hb.extra.merge ha.extra hm.extra
      name := hm.name ▸ hb.name }

theorem IteratorDecl.Tidy.merge {base addition result : IteratorDecl} (hb : base.Tidy)
    (ha : addition.Tidy) (h : base.merge active addition = .ok result) : result.Tidy :=
  ⟨hb.extra.merge ha.extra (IteratorDecl.merge_eq_ok_iff.1 h).extra⟩

end Members

/-! ## Definitions -/

section Definitions

variable {c : Convention} {policy : MergePolicy} {key : String}

/-- The members of all kinds. -/
theorem Interface.Follows.mergeMembers {base addition result : Interface} (hb : base.Follows c)
    (ha : addition.Follows c) (h : base.mergeMembers policy addition = .ok result) :
    result.Follows c := by
  obtain ⟨hconstants, hmethods, hproperties, heq⟩ := mergeMembers_eq_ok_iff.1 h
  rw [heq]
  exact
    { hb with
      constants := hb.constants.collection (fun _ _ _ _ => Constant.Follows.merge) ha.constants
        hconstants
      methods := hb.methods.collection (fun _ _ _ _ => Method.Follows.merge) ha.methods hmethods
      properties := hb.properties.collection (fun _ _ _ _ => Property.Follows.merge) ha.properties
        hproperties }

theorem Interface.Follows.merge {base addition result : Interface} (hb : base.Follows c)
    (ha : addition.Follows c) (h : base.merge policy addition = .ok result) : result.Follows c := by
  have hm := Interface.merge_eq_ok_iff.1 h
  exact
    { constants := hb.constants.collection (fun _ _ _ _ => Constant.Follows.merge) ha.constants
        hm.constants
      methods := hb.methods.collection (fun _ _ _ _ => Method.Follows.merge) ha.methods hm.methods
      properties := hb.properties.collection (fun _ _ _ _ => Property.Follows.merge) ha.properties
        hm.properties
      constructor := (optional_eq_ok_iff.1 hm.constructor).all
        (fun _ _ _ => Constructor.Follows.merge) hb.constructor ha.constructor
      exposed := Convention.exposure_merge hb.exposed ha.exposed hm.exposed
      overrideExposed := Convention.exposure_merge hb.overrideExposed ha.overrideExposed
        hm.overrideExposed
      iterator := (optional_eq_ok_iff.1 hm.iterator).all (fun _ _ _ => IteratorDecl.Tidy.merge)
        hb.iterator ha.iterator
      extra := hb.extra.merge ha.extra hm.extra }

theorem Interface.FollowsAt.merge {base addition result : Interface} (hb : base.FollowsAt c key)
    (ha : addition.FollowsAt c key) (h : base.merge policy addition = .ok result) :
    result.FollowsAt c key :=
  { hb.toFollows.merge ha.toFollows h with name := (Interface.merge_eq_ok_iff.1 h).name ▸ hb.name }

theorem Dictionary.Follows.mergeMembers {base addition result : Dictionary} (hb : base.Follows c)
    (ha : addition.Follows c) (h : base.mergeMembers policy addition = .ok result) :
    result.Follows c := by
  simp only [Dictionary.mergeMembers, within_eq_ok_iff, bind_eq_ok_iff, pure_eq_ok_iff] at h
  obtain ⟨_, hmembers, rfl⟩ := h
  exact
    { members := hb.members.collection (fun _ _ _ _ => Member.Follows.merge) ha.members hmembers
      extra := hb.extra }

theorem Dictionary.FollowsAt.merge {base addition result : Dictionary} (hb : base.FollowsAt c key)
    (ha : addition.FollowsAt c key) (h : base.merge policy addition = .ok result) :
    result.FollowsAt c key := by
  have hm := Dictionary.merge_eq_ok_iff.1 h
  exact
    { members := hb.members.collection (fun _ _ _ _ => Member.Follows.merge) ha.members hm.members
      extra := hb.extra.merge ha.extra hm.extra
      name := hm.name ▸ hb.name }

theorem Enumeration.FollowsAt.merge {active : Policy} {base addition result : Enumeration}
    (hb : base.FollowsAt c key) (ha : addition.FollowsAt c key)
    (h : base.merge active addition = .ok result) : result.FollowsAt c key := by
  have hm := Enumeration.merge_eq_ok_iff.1 h
  exact { extra := hb.extra.merge ha.extra hm.extra, name := hm.name ▸ hb.name }

theorem CallbackFunction.FollowsAt.merge {active : Policy} {base addition result : CallbackFunction}
    (hb : base.FollowsAt c key) (ha : addition.FollowsAt c key)
    (h : base.merge active addition = .ok result) : result.FollowsAt c key := by
  have hm := CallbackFunction.merge_eq_ok_iff.1 h
  exact
    { signatures := hm.signatures ▸ List.forall_mem_append.2 ⟨hb.signatures, ha.signatures⟩
      extra := hb.extra.merge ha.extra hm.extra
      name := hm.name ▸ hb.name }

theorem Typedef.Tidy.merge {active : Policy} {base addition result : Typedef} (hb : base.Tidy)
    (ha : addition.Tidy) (h : base.merge active addition = .ok result) : result.Tidy :=
  ⟨hb.extra.merge ha.extra (Typedef.merge_eq_ok_iff.1 h).extra⟩

/-! ## Graphs -/

/-- Namespaces are merged into the empty list where the base has none. -/
theorem Graph.namespaces_follow {base addition result : Option (List Interface)}
    (hb : ∀ items ∈ base, ∀ i ∈ items, i.Follows c)
    (ha : ∀ items ∈ addition, ∀ i ∈ items, i.Follows c)
    (h : mergeNamespaceLists policy base addition = .ok result) :
    ∀ items ∈ result, ∀ i ∈ items, i.Follows c := by
  cases addition with
  | none =>
    cases h
    exact hb
  | some items =>
    obtain ⟨merged, hm, rfl⟩ := map_eq_ok_iff.1 h
    have hbase : ∀ i ∈ base.getD [], i.Follows c := by
      cases base with
      | none => simp
      | some old => exact hb old rfl
    rintro _ ⟨⟩
    exact forall_mem_identified (fun _ _ _ => Interface.Follows.merge) hbase (ha items rfl) hm

/-- **The merge of graphs that follow a convention follows it**, under every policy. -/
theorem Graph.Follows.merge {base addition result : Graph} (hb : base.Follows c)
    (ha : addition.Follows c) (h : base.merge policy addition = .ok result) : result.Follows c := by
  have hm := Graph.merge_eq_ok_iff.1 h
  have hinterfaces {field entries : String} {old new merged : Option (Keyed Interface)}
      (hold : EachEntry (Interface.FollowsAt c) old) (hnew : EachEntry (Interface.FollowsAt c) new)
      (hc : collection policy.entries field entries (Interface.merge policy) old new = .ok merged) :
      EachEntry (Interface.FollowsAt c) merged :=
    hold.collection (fun _ _ _ _ => Interface.FollowsAt.merge) hnew hc
  exact
    { callbackFunctions := hb.callbackFunctions.collection
        (fun _ _ _ _ => CallbackFunction.FollowsAt.merge) ha.callbackFunctions hm.callbackFunctions
      callbackInterfaces := hinterfaces hb.callbackInterfaces ha.callbackInterfaces
        hm.callbackInterfaces
      dictionaries := hb.dictionaries.collection (fun _ _ _ _ => Dictionary.FollowsAt.merge)
        ha.dictionaries hm.dictionaries
      enums := hb.enums.collection (fun _ _ _ _ => Enumeration.FollowsAt.merge) ha.enums hm.enums
      interfaces := hinterfaces hb.interfaces ha.interfaces hm.interfaces
      mixins := hinterfaces hb.mixins ha.mixins hm.mixins
      namespaces := namespaces_follow hb.namespaces ha.namespaces hm.namespaces
      typedefs := (optional_eq_ok_iff.1 hm.typedefs).all
        (fun _ _ _ hold hnew hmerged => forall_mem_identified (fun _ _ _ => Typedef.Tidy.merge) hold
          hnew (within_eq_ok_iff.1 hmerged)) hb.typedefs ha.typedefs
      extra := hb.extra.merge ha.extra hm.extra }

end Definitions

end IdlDecls
