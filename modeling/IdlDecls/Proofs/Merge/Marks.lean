import IdlDecls.Integration.Integrate
import IdlDecls.Proofs.Exposure.Overriding
import IdlDecls.Proofs.Integration.Folding
import IdlDecls.Proofs.Merge.Conserved
import IdlDecls.Proofs.Merge.Members

/-!
# Marks of deprecation

An interface can be marked as deprecated as a whole, and so can its methods and its properties. A merge
has the marks of both sides, under every policy and whatever else it is refused for
(`Interface.marked_merge`, `Graph.marked_merge`); a mark that one side clears is set by the other.
Exposing sets and clears no marks, and a fragment that is stamped has all that it has a place for.
-/

namespace IdlDecls

open Merge Merging

/-- A mark of an interface: of itself, or of a method or a property with a name. -/
inductive Mark where
  | whole
  | method (name : String)
  | property (name : String)
deriving DecidableEq, Repr

namespace Interface

/-- Whether a mark is set. -/
def marked (i : Interface) : Mark → Bool
  | .whole => i.deprecated = some true
  | .method name => (i.method? name).any (·.deprecated = some true)
  | .property name => (i.property? name).any (·.deprecated = some true)

/-- Whether there is something to mark. -/
def lists (i : Interface) : Mark → Bool
  | .whole => true
  | .method name => (i.method? name).isSome
  | .property name => (i.property? name).isSome

end Interface

/-! ## Merging -/

/-- A single value that is settled is the new one. -/
theorem eq_of_settle {α : Type} [DecidableEq α] {active : Policy} {old new merged : α}
    (h : settle active old new = .ok merged) : merged = new := by
  unfold settle settleBy at h
  split at h
  · rename_i hsame
    cases h
    exact hsame.symm
  · cases active with
    | override => exact (Except.ok.inj h).symm
    | reject | extend => cases h

/-- A deprecation is set if one of the sides sets it. -/
theorem deprecation_isSet {active : Policy} {base addition result : Option Bool}
    (h : deprecation active base addition = .ok result) :
    decide (result = some true) = (decide (base = some true) || decide (addition = some true)) := by
  cases optional_eq_ok_iff.1 h with
  | base => simp
  | addition => simp
  | both hm => simp [eq_of_settle hm]

namespace Interface

section Merging

variable {policy : MergePolicy} {base addition result : Interface}

/-- Members have the marks of both sides. -/
theorem marked_of_members {level : Policy}
    (hmethods : base.mergeMethods level addition = .ok result.methods)
    (hproperties : base.mergeProperties level addition = .ok result.properties) {mark : Mark}
    (hmark : mark ≠ .whole) : result.marked mark = (base.marked mark || addition.marked mark) := by
  cases mark with
  | whole => exact absurd rfl hmark
  | method name =>
    exact any_lookup?_collection
      (fun _ _ _ h => deprecation_isSet (Method.merge_eq_ok_iff.1 h).deprecated) hmethods name
  | property name =>
    exact any_lookup?_collection
      (fun _ _ _ h => deprecation_isSet (Property.merge_eq_ok_iff.1 h).deprecated) hproperties name

/-- **A merge has the marks of both sides**, under every policy. -/
theorem marked_merge (h : base.merge policy addition = .ok result) (mark : Mark) :
    result.marked mark = (base.marked mark || addition.marked mark) := by
  have hm := Interface.merge_eq_ok_iff.1 h
  by_cases hmark : mark = .whole
  · subst hmark
    exact deprecation_isSet hm.deprecated
  · exact marked_of_members hm.methods hm.properties hmark

/-- A merge of members brings no mark of the whole. -/
theorem marked_mergeMembers (h : base.mergeMembers policy addition = .ok result) (mark : Mark) :
    result.marked mark = (base.marked mark || (mark ≠ .whole && addition.marked mark)) := by
  obtain ⟨-, hmethods, hproperties, heq⟩ := mergeMembers_eq_ok_iff.1 h
  by_cases hmark : mark = .whole
  · subst hmark
    rw [heq]
    simp [marked]
  · simpa [hmark] using marked_of_members hmethods hproperties hmark

end Merging

/-! ## Exposing, including and stamping -/

@[simp] theorem marked_expose (mode : ExposureMode) (exposure : Exposure) (i : Interface)
    (mark : Mark) : (i.expose mode exposure).marked mark = i.marked mark := by
  cases mark with
  | whole => rfl
  | method name =>
    simp only [marked, method?, expose, lookup?_map_values, Option.any_map]
  | property name =>
    simp only [marked, property?, expose, lookup?_map_values, Option.any_map]

theorem marked_applyOverride (i : Interface) (mark : Mark) :
    i.applyOverride.marked mark = i.marked mark := by
  cases he : i.overrideExposed with
  | none => rw [applyOverride, he]
  | some e => rw [applyOverride_of_some he, marked_expose]

theorem marked_exposedFor (base addition : Interface) (mark : Mark) :
    (base.exposedFor addition).marked mark = addition.marked mark := by
  rw [exposedFor]
  split
  · rw [marked_expose]
  · rfl

/-- A partial definition brings the marks of its members. -/
theorem marked_foldPartial {base addition merged : Interface}
    (h : base.foldPartial addition = .ok merged) (mark : Mark) :
    merged.marked mark = (base.marked mark || (mark ≠ .whole && addition.marked mark)) := by
  rw [marked_mergeMembers (foldPartial_iff_mergeMembers.1 h), marked_exposedFor]

theorem marked_including (mixin : String) (i : Interface) (mark : Mark) :
    (i.including mixin).marked mark = i.marked mark := by
  cases mark <;> rfl

/-- **A stamped interface is marked throughout.** -/
theorem marked_markDeprecated (i : Interface) (mark : Mark) :
    i.markDeprecated.marked mark = i.lists mark := by
  cases mark with
  | whole => rfl
  | method name =>
    simp only [marked, lists, method?, markDeprecated, lookup?_map_values, Option.any_map]
    cases lookup? i.methods name <;> rfl
  | property name =>
    simp only [marked, lists, property?, markDeprecated, lookup?_map_values, Option.any_map]
    cases lookup? i.properties name <;> rfl

theorem marked_fillMemberNames (i : Interface) (mark : Mark) :
    i.fillMemberNames.marked mark = i.marked mark := by
  cases mark with
  | whole => rfl
  | method name =>
    simp only [marked, method?, fillMemberNames, lookup?_map_entries, Option.any_map]
  | property name =>
    simp only [marked, property?, fillMemberNames, lookup?_map_entries, Option.any_map]

theorem marked_fillNames (key : String) (i : Interface) (mark : Mark) :
    (i.fillNames key).marked mark = i.marked mark := by
  rw [← marked_fillMemberNames i mark]
  cases mark <;> rfl

end Interface

/-! ## Graphs -/

/-- The definitions of a graph that can be marked and stand under keys. -/
inductive Family where
  | of (c : Collection)
  | callbackInterfaces
deriving DecidableEq, Repr

/-- The definition of a family with a name. -/
def Family.get? : Family → Graph → String → Option Interface
  | .of c, g, name => c.get? g name
  | .callbackInterfaces, g, name => lookup? g.callbackInterfaces name

/-- Whether a definition is there and has a mark set. -/
def Graph.marked (g : Graph) (family : Family) (name : String) (mark : Mark) : Bool :=
  (family.get? g name).any (·.marked mark)

namespace Graph

/-- **A merge of graphs has the marks of both sides**, under every policy. -/
theorem marked_merge {policy : MergePolicy} {base addition result : Graph}
    (h : base.merge policy addition = .ok result) (family : Family) (name : String) (mark : Mark) :
    result.marked family name mark =
      (base.marked family name mark || addition.marked family name mark) := by
  have hm := Graph.merge_eq_ok_iff.1 h
  have hjoin : ∀ old new merged : Interface, old.merge policy new = .ok merged →
      merged.marked mark = (old.marked mark || new.marked mark) :=
    fun _ _ _ h => Interface.marked_merge h mark
  cases family with
  | callbackInterfaces => exact any_lookup?_collection hjoin hm.callbackInterfaces name
  | of c =>
    cases c with
    | interfaces => exact any_lookup?_collection hjoin hm.interfaces name
    | mixins => exact any_lookup?_collection hjoin hm.mixins name

/-- Overriding exposures set and clear no marks. -/
theorem marked_applyExposureOverrides {g result : Graph} {count : Nat}
    (h : g.applyExposureOverrides = .ok (result, count)) (family : Family) (name : String)
    (mark : Mark) : result.marked family name mark = g.marked family name mark := by
  obtain ⟨-, rfl, -⟩ := applyExposureOverrides_eq_ok_iff.1 h
  cases family with
  | callbackInterfaces => rfl
  | of c =>
    cases c with
    | mixins => rfl
    | interfaces =>
      simp only [marked, Family.get?, Collection.get?, interface?, lookup?_map_values, Option.any_map,
        Interface.marked_applyOverride]

end Graph

/-! ## Namespaces -/

/-- A namespace that keeps its name and its marks, and as long as it has no name, everything. -/
structure Interface.MarksKept (old new : Interface) : Prop where
  name : new.name = old.name
  marks : ∀ mark, old.marked mark = true → new.marked mark = true
  nameless : old.name = "" → new = old

theorem Interface.MarksKept.refl (i : Interface) : i.MarksKept i :=
  ⟨rfl, fun _ h => h, fun _ => rfl⟩

theorem Interface.MarksKept.trans {a b c : Interface} (hab : a.MarksKept b) (hbc : b.MarksKept c) :
    a.MarksKept c where
  name := hbc.name.trans hab.name
  marks mark h := hbc.marks mark (hab.marks mark h)
  nameless h := (hbc.nameless (hab.name.trans h)).trans (hab.nameless h)

/-- Namespaces keep their places in a merge, and their marks. -/
theorem Graph.namespaces_merge {policy : MergePolicy} {base addition result : Graph}
    (h : base.merge policy addition = .ok result) :
    KeptInPlace Interface.MarksKept (base.namespaces.getD []) (result.namespaces.getD []) := by
  have hm := (Graph.merge_eq_ok_iff.1 h).namespaces
  cases hadd : addition.namespaces with
  | none =>
    rw [hadd] at hm
    rw [Except.ok.inj hm]
    exact fun _ => Kept.refl Interface.MarksKept.refl _
  | some items =>
    rw [hadd] at hm
    obtain ⟨merged, hmerged, hresult⟩ := map_eq_ok_iff.1 hm
    rw [← hresult]
    refine kept_identified Interface.MarksKept.refl (fun _ _ _ => Interface.MarksKept.trans) ?_ hmerged
    intro old new joined hsame hjoin
    refine ⟨(Interface.merge_eq_ok_iff.1 hjoin).name, fun mark hmark => ?_, fun hname => ?_⟩
    · rw [Interface.marked_merge hjoin, hmark, Bool.true_or]
    · exact absurd (hsame.2.symm.trans hname) hsame.1

end IdlDecls
