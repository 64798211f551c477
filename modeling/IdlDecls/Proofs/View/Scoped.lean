import IdlDecls.Proofs.View.Selected

/-!
# Interfaces as a context sees them

A member is seen by its own exposure if it has contexts there, else by that of what it belongs to
(`Exposure.SeenUnder`). `Interface.Restricts` says of two interfaces that the one is the other with just
the members, and the constructor, whose own exposures pass a test; an interface that is scoped to a
context is restricted to what is seen in it (`Interface.restricts_scopedTo`).
-/

namespace IdlDecls

/-! ## Members -/

/-- A context sees something that belongs to a parent: by its own exposure, by that of the parent where
its own has no contexts, and always where neither has any. -/
inductive Exposure.SeenUnder (context : String) (parent own : Option Exposure) : Prop where
  | own : (nonempty? own).isSome → isExposedIn own context = true → SeenUnder context parent own
  | parent : nonempty? own = none → (nonempty? parent).isSome → isExposedIn parent context = true →
      SeenUnder context parent own
  | neither : nonempty? own = none → nonempty? parent = none → SeenUnder context parent own

/-- An empty exposure is visible where a missing one is. -/
theorem isExposedIn_of_nonempty? {exposure : Option Exposure} {e : Exposure}
    (h : Exposure.nonempty? exposure = some e) (context : String) :
    isExposedIn (some e) context = isExposedIn exposure context := by
  obtain ⟨rfl, -⟩ := Option.filter_eq_some_iff.1 h
  rfl

theorem isMemberVisible_iff {context : String} {parent own : Option Exposure} :
    isMemberVisible context parent own = true ↔ Exposure.SeenUnder context parent own := by
  rw [isMemberVisible, effectiveExposure]
  cases hown : Exposure.nonempty? own with
  | some e =>
    rw [Option.some_or]
    simp only [isExposedIn_of_nonempty? hown]
    constructor
    · exact .own (Option.isSome_iff_exists.2 ⟨e, hown⟩)
    · rintro (⟨-, hvisible⟩ | ⟨hnone, -, -⟩ | ⟨hnone, -⟩)
      · exact hvisible
      · cases hown.symm.trans hnone
      · cases hown.symm.trans hnone
  | none =>
    rw [Option.none_or]
    have hunset : ¬ (Exposure.nonempty? own).isSome := by simp [hown]
    cases hparent : Exposure.nonempty? parent with
    | some p =>
      simp only [isExposedIn_of_nonempty? hparent]
      constructor
      · exact .parent hown (Option.isSome_iff_exists.2 ⟨p, hparent⟩)
      · rintro (⟨hsome, -⟩ | ⟨-, -, hvisible⟩ | ⟨-, hnone⟩)
        · exact absurd hsome hunset
        · exact hvisible
        · cases hparent.symm.trans hnone
    | none => exact ⟨fun _ => .neither hown hparent, fun _ => rfl⟩

/-- Where a member cannot inherit, only contexts of its own hide it. -/
theorem Exposure.seenUnder_none_iff {context : String} {own : Option Exposure} :
    SeenUnder context none own ↔ nonempty? own = none ∨ isExposedIn own context = true := by
  constructor
  · rintro (⟨-, hvisible⟩ | ⟨-, hsome, -⟩ | ⟨hnone, -⟩)
    · exact Or.inr hvisible
    · cases hsome
    · exact Or.inl hnone
  · cases hown : nonempty? own with
    | none => exact fun _ => .neither hown rfl
    | some e =>
      rintro (hnone | hvisible)
      · cases hnone
      · exact .own (Option.isSome_iff_exists.2 ⟨e, hown⟩) hvisible

/-- The same holds under a parent that is visible itself. -/
theorem Exposure.seenUnder_of_exposed {context : String} {parent own : Option Exposure}
    (h : isExposedIn parent context = true) :
    SeenUnder context parent own ↔ nonempty? own = none ∨ isExposedIn own context = true := by
  rw [← seenUnder_none_iff]
  constructor
  · rintro (⟨hsome, hvisible⟩ | ⟨hnone, -, -⟩ | ⟨hnone, -⟩)
    · exact .own hsome hvisible
    · exact .neither hnone rfl
    · exact .neither hnone rfl
  · rintro (⟨hsome, hvisible⟩ | ⟨-, hsome, -⟩ | ⟨hnone, -⟩)
    · exact .own hsome hvisible
    · cases hsome
    · cases hparent : nonempty? parent with
      | none => exact .neither hnone hparent
      | some p => exact .parent hnone (Option.isSome_iff_exists.2 ⟨p, hparent⟩) h

/-! ## Interfaces -/

theorem lookup?_map_filter {α : Type} (p : String → α → Bool) (c : Option (Keyed α)) (key : String) :
    lookup? (c.map (·.filter p)) key = (lookup? c key).filter (p key) := by
  cases c with
  | none => rfl
  | some m => exact Keyed.get?_filter p m key

namespace Interface

/-- The interface `seen` is `whole` with the members, and the constructor, whose own exposures pass a
test. Nothing else differs, and a collection of members is there where it was. -/
structure Restricts (passes : Option Exposure → Prop) (whole seen : Interface) : Prop where
  others : seen = { whole with
    constants := seen.constants
    methods := seen.methods
    properties := seen.properties
    constructor := seen.constructor }
  constants : seen.constants.isSome = whole.constants.isSome
  methods : seen.methods.isSome = whole.methods.isSome
  properties : seen.properties.isSome = whole.properties.isSome
  constant : ∀ name c, seen.constant? name = some c ↔
    whole.constant? name = some c ∧ passes c.exposed
  method : ∀ name m, seen.method? name = some m ↔ whole.method? name = some m ∧ passes m.exposed
  property : ∀ name p, seen.property? name = some p ↔
    whole.property? name = some p ∧ passes p.exposed
  constructor : ∀ c, seen.constructor = some c ↔ whole.constructor = some c ∧ passes c.exposed

/-- **A context sees what its test lets pass**, and all else of the interface as it is. -/
theorem restricts_scopedTo (context : String) (inherits : Bool) (i : Interface) :
    i.Restricts (Exposure.SeenUnder context (if inherits then i.exposed else none))
      (i.scopedTo context inherits) where
  others := rfl
  constants := Option.isSome_map
  methods := Option.isSome_map
  properties := Option.isSome_map
  constant name c := by
    rw [constant?, scopedTo, lookup?_map_filter, Option.filter_eq_some_iff, isMemberVisible_iff]
    rfl
  method name m := by
    rw [method?, scopedTo, lookup?_map_filter, Option.filter_eq_some_iff, isMemberVisible_iff]
    rfl
  property name p := by
    rw [property?, scopedTo, lookup?_map_filter, Option.filter_eq_some_iff, isMemberVisible_iff]
    rfl
  constructor c := by
    rw [scopedTo, Option.filter_eq_some_iff, isMemberVisible_iff]

/-- A test leaves one interface of another. -/
theorem Restricts.unique {passes : Option Exposure → Prop} {whole seen seen' : Interface}
    (h : whole.Restricts passes seen) (h' : whole.Restricts passes seen') : seen = seen' := by
  have hconstants : seen.constants = seen'.constants :=
    eq_of_lookup? (h.constants.trans h'.constants.symm) fun name =>
      Option.ext fun c => (h.constant name c).trans (h'.constant name c).symm
  have hmethods : seen.methods = seen'.methods :=
    eq_of_lookup? (h.methods.trans h'.methods.symm) fun name =>
      Option.ext fun m => (h.method name m).trans (h'.method name m).symm
  have hproperties : seen.properties = seen'.properties :=
    eq_of_lookup? (h.properties.trans h'.properties.symm) fun name =>
      Option.ext fun p => (h.property name p).trans (h'.property name p).symm
  have hconstructor : seen.constructor = seen'.constructor :=
    Option.ext fun c => (h.constructor c).trans (h'.constructor c).symm
  calc seen = _ := h.others
    _ = _ := by rw [hconstants, hmethods, hproperties, hconstructor]
    _ = seen' := h'.others.symm

/-- Scoping is the one way to restrict an interface to what a context sees. -/
theorem restricts_iff_eq_scopedTo (context : String) (inherits : Bool) {whole seen : Interface} :
    whole.Restricts (Exposure.SeenUnder context (if inherits then whole.exposed else none)) seen ↔
      seen = whole.scopedTo context inherits := by
  constructor
  · exact fun h => h.unique (whole.restricts_scopedTo context inherits)
  · rintro rfl
    exact whole.restricts_scopedTo context inherits

end Interface

end IdlDecls
