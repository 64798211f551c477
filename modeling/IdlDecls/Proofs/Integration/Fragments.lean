import IdlDecls.Integration.Fragment
import IdlDecls.Proofs.Model.Conventions

/-!
# Fragments under a convention

A fragment is tidy and named as the definitions and the partial definitions in it are. Whatever is read
is tidy and has no name left to be filled in (`Fragment.follows_of_ofJson`), also where the fields come
as the items of an array. Partial definitions stand under no keys, so a convention binds the names of
their members alone.
-/

namespace IdlDecls

open Read

/-! ## What fragments hold -/

/-- A fragment as it is read: extra fields stand beside the fields in all that it holds. -/
structure Fragment.Tidy (f : Fragment) : Prop where
  definitions : f.definitions.Tidy
  partialInterfaces : ∀ i ∈ f.partialInterfaces, i.Tidy
  partialMixins : ∀ i ∈ f.partialMixins, i.Tidy
  partialDictionaries : ∀ d ∈ f.partialDictionaries, d.Tidy

/-- Every exposure in a fragment. -/
def Fragment.exposures (f : Fragment) : List Exposure :=
  f.definitions.exposures ++ (f.partialInterfaces ++ f.partialMixins).flatMap (·.exposures)

/-- Every value in a fragment. -/
def Fragment.literals (f : Fragment) : List Json :=
  f.definitions.literals ++ (f.partialInterfaces ++ f.partialMixins).flatMap (·.literals) ++
    f.partialDictionaries.flatMap (·.literals)

theorem Fragment.forall_mem_literals {f : Fragment} {P : Json → Prop} :
    (∀ j ∈ f.literals, P j) ↔
      (∀ j ∈ f.definitions.literals, P j) ∧
      (∀ i ∈ f.partialInterfaces, ∀ j ∈ i.literals, P j) ∧
      (∀ i ∈ f.partialMixins, ∀ j ∈ i.literals, P j) ∧
      ∀ d ∈ f.partialDictionaries, ∀ j ∈ d.literals, P j := by
  simp only [literals, List.forall_mem_append, List.forall_mem_flatMap, and_assoc]

/-- The names of all entries and members of a fragment are to their keys as `R` says. -/
structure Fragment.Named (R : String → String → Prop) (f : Fragment) : Prop where
  definitions : f.definitions.Named R
  partialInterfaces : ∀ i ∈ f.partialInterfaces, i.MembersNamed R
  partialMixins : ∀ i ∈ f.partialMixins, i.MembersNamed R
  partialDictionaries : ∀ d ∈ f.partialDictionaries, d.MembersNamed R

instance (R : String → String → Prop) [∀ key name, Decidable (R key name)] (f : Fragment) :
    Decidable (f.Named R) :=
  decidable_of_iff (_ ∧ _ ∧ _ ∧ _)
    ⟨fun ⟨h, h', h'', h₃⟩ => ⟨h, h', h'', h₃⟩,
      fun h => ⟨h.definitions, h.partialInterfaces, h.partialMixins, h.partialDictionaries⟩⟩

/-- A fragment that follows a convention. -/
structure Fragment.Follows (c : Convention) (f : Fragment) : Prop where
  definitions : f.definitions.Follows c
  partialInterfaces : ∀ i ∈ f.partialInterfaces, i.Follows c
  partialMixins : ∀ i ∈ f.partialMixins, i.Follows c
  partialDictionaries : ∀ d ∈ f.partialDictionaries, d.Follows c

section Parts

variable {c : Convention}

theorem Fragment.follows_iff {f : Fragment} : f.Follows c ↔
    f.Tidy ∧ (∀ e ∈ f.exposures, c.exposure e) ∧ (∀ j ∈ f.literals, c.literal j) ∧
      f.Named c.name := by
  simp only [exposures, List.forall_mem_append, List.forall_mem_flatMap, Fragment.forall_mem_literals]
  constructor
  · intro h
    have hdefinitions := Graph.follows_iff.1 h.definitions
    have hinterfaces := fun i hi => Interface.follows_iff.1 (h.partialInterfaces i hi)
    have hmixins := fun i hi => Interface.follows_iff.1 (h.partialMixins i hi)
    have hdictionaries := fun d hd => Dictionary.follows_iff.1 (h.partialDictionaries d hd)
    exact ⟨⟨hdefinitions.1, fun i hi => (hinterfaces i hi).1, fun i hi => (hmixins i hi).1,
      fun d hd => (hdictionaries d hd).1⟩,
      ⟨hdefinitions.2.1, fun i hi => (hinterfaces i hi).2.1, fun i hi => (hmixins i hi).2.1⟩,
      ⟨hdefinitions.2.2.1, fun i hi => (hinterfaces i hi).2.2.1, fun i hi => (hmixins i hi).2.2.1,
        fun d hd => (hdictionaries d hd).2.1⟩,
      ⟨hdefinitions.2.2.2, fun i hi => (hinterfaces i hi).2.2.2, fun i hi => (hmixins i hi).2.2.2,
        fun d hd => (hdictionaries d hd).2.2⟩⟩
  · rintro ⟨htidy, ⟨hdefinitions, hinterfaces, hmixins⟩, ⟨hdl, hil, hml, hdictionaries⟩, hnames⟩
    exact
      { definitions := Graph.follows_iff.2
          ⟨htidy.definitions, hdefinitions, hdl, hnames.definitions⟩
        partialInterfaces := fun i hi => Interface.follows_iff.2
          ⟨htidy.partialInterfaces i hi, hinterfaces i hi, hil i hi, hnames.partialInterfaces i hi⟩
        partialMixins := fun i hi => Interface.follows_iff.2
          ⟨htidy.partialMixins i hi, hmixins i hi, hml i hi, hnames.partialMixins i hi⟩
        partialDictionaries := fun d hd => Dictionary.follows_iff.2
          ⟨htidy.partialDictionaries d hd, hdictionaries d hd, hnames.partialDictionaries d hd⟩ }

/-! ## Reading -/

section Reading

variable {P : Graph → Prop} {Q : Interface → Prop} {R : Dictionary → Prop}

/-- The definitions of a fragment are as `P` says, its partial definitions as `Q` and `R` say. -/
structure Fragment.Parts (P : Graph → Prop) (Q : Interface → Prop) (R : Dictionary → Prop)
    (f : Fragment) : Prop where
  definitions : P f.definitions
  partialInterfaces : ∀ i ∈ f.partialInterfaces, Q i
  partialMixins : ∀ i ∈ f.partialMixins, Q i
  partialDictionaries : ∀ d ∈ f.partialDictionaries, R d

theorem Fragment.parts_of_ofFields (hP : Yields Graph.ofRawJson P) (hQ : Yields Interface.ofJson Q)
    (hR : Yields Dictionary.ofJson R) : Yields Fragment.ofFields (Fragment.Parts P Q R) := by
  intro fields f h
  simp only [Fragment.ofFields, bind_eq_ok_iff, pure_eq_ok_iff] at h
  obtain ⟨definitions, hdefinitions, _, -, _, -, dictionaries, hdictionaries, interfaces, hinterfaces,
    mixins, hmixins, _, -, rfl⟩ := h
  exact ⟨hP.orElse (hP (.obj []) ∅ rfl) hdefinitions, hQ.list.orElse (by simp) hinterfaces,
    hQ.list.orElse (by simp) hmixins, hR.list.orElse (by simp) hdictionaries⟩

theorem Fragment.parts_of_ofItems (hP : Yields Graph.ofRawJson P) (hQ : Yields Interface.ofJson Q)
    (hR : Yields Dictionary.ofJson R) : Yields Fragment.ofItems (Fragment.Parts P Q R) := by
  intro fields f h
  simp only [Fragment.ofItems, bind_eq_ok_iff, pure_eq_ok_iff] at h
  obtain ⟨_, -, _, -, definitions, hdefinitions, interfaces, hinterfaces, mixins, hmixins, dictionaries,
    hdictionaries, _, -, rfl⟩ := h
  exact ⟨hP.orElse (hP (.obj []) ∅ rfl) hdefinitions, hQ.list.orElse (by simp) hinterfaces,
    hQ.list.orElse (by simp) hmixins, hR.list.orElse (by simp) hdictionaries⟩

/-- A fragment that is read has parts as they are read, with their names filled in. -/
theorem Fragment.exists_of_ofJson (hP : Yields Graph.ofRawJson P) (hQ : Yields Interface.ofJson Q)
    (hR : Yields Dictionary.ofJson R) {j : Json} {f : Fragment} (h : Fragment.ofJson j = .ok f) :
    ∃ raw : Fragment, raw.Parts P Q R ∧ raw.fillNames = f := by
  cases j with
  | obj fields =>
    obtain ⟨raw, hraw, rfl⟩ := map_eq_ok_iff.1 h
    exact ⟨raw, Fragment.parts_of_ofFields hP hQ hR fields raw hraw, rfl⟩
  | null | bool _ | num _ | str _ | arr _ =>
    obtain ⟨raw, hraw, rfl⟩ := map_eq_ok_iff.1 h
    exact ⟨raw, (Fragment.parts_of_ofItems hP hQ hR).record _ raw hraw, rfl⟩

end Reading

theorem Fragment.Follows.fillNames {f : Fragment} (h : f.Follows c.loose) :
    f.fillNames.Follows c where
  definitions := h.definitions.fillNames
  partialInterfaces := List.forall_mem_map.2 fun i hi => (h.partialInterfaces i hi).fillMemberNames
  partialMixins := List.forall_mem_map.2 fun i hi => (h.partialMixins i hi).fillMemberNames
  partialDictionaries :=
    List.forall_mem_map.2 fun d hd => (h.partialDictionaries d hd).fillMemberNames

/-- **Every fragment that is read** is tidy, no value in it is null, and no name in it is left to be
filled in. -/
theorem Fragment.follows_of_ofJson {j : Json} {f : Fragment} (h : Fragment.ofJson j = .ok f) :
    f.Follows .filled := by
  obtain ⟨raw, hparts, rfl⟩ := Fragment.exists_of_ofJson
    (Graph.tidy_of_ofRawJson.and Graph.ne_null_of_ofRawJson)
    (Interface.tidy_of_ofJson.and Interface.ne_null_of_ofJson)
    (Dictionary.tidy_of_ofJson.and Dictionary.ne_null_of_ofJson) h
  have htidy : raw.Tidy :=
    { definitions := hparts.definitions.1
      partialInterfaces := fun i hi => (hparts.partialInterfaces i hi).1
      partialMixins := fun i hi => (hparts.partialMixins i hi).1
      partialDictionaries := fun d hd => (hparts.partialDictionaries d hd).1 }
  have hliterals : ∀ v ∈ raw.literals, v ≠ .null := Fragment.forall_mem_literals.2
    ⟨hparts.definitions.2, fun i hi => (hparts.partialInterfaces i hi).2,
      fun i hi => (hparts.partialMixins i hi).2, fun d hd => (hparts.partialDictionaries d hd).2⟩
  have hnames : raw.Named Convention.filled.loose.name :=
    { definitions := Graph.named_of_forall Convention.name_loose_filled _
      partialInterfaces := fun i _ => Interface.membersNamed_of_forall Convention.name_loose_filled i
      partialMixins := fun i _ => Interface.membersNamed_of_forall Convention.name_loose_filled i
      partialDictionaries := fun d _ _ _ _ => Convention.name_loose_filled _ _ }
  exact (Fragment.follows_iff.2 ⟨htidy, fun _ _ => trivial, hliterals, hnames⟩).fillNames

theorem Fragment.tidy_of_ofJson {j : Json} {f : Fragment} (h : Fragment.ofJson j = .ok f) : f.Tidy :=
  (Fragment.follows_iff.1 (Fragment.follows_of_ofJson h)).1

/-- The definitions of a fragment that is read have their extra fields beside their fields. -/
theorem Fragment.separateExtra_of_ofJson {j : Json} {f : Fragment} (h : Fragment.ofJson j = .ok f) :
    f.definitions.SeparateExtra :=
  (Fragment.tidy_of_ofJson h).definitions.extra

/-! ## Deprecated fragments -/

theorem Interface.Follows.markDeprecated {i : Interface} (hi : i.Follows c) :
    i.markDeprecated.Follows c where
  constants := hi.constants
  methods := hi.methods.map fun _ _ hm => { hm with exposed := hm.exposed }
  properties := hi.properties.map fun _ _ hp => { hp with exposed := hp.exposed }
  constructor := hi.constructor
  exposed := hi.exposed
  overrideExposed := hi.overrideExposed
  iterator := hi.iterator
  extra := hi.extra

theorem Fragment.Follows.stampDeprecated {f : Fragment} (hf : f.Follows c) :
    f.stampDeprecated.Follows c := by
  rw [Fragment.stampDeprecated]
  by_cases hd : f.deprecated = true
  · rw [if_pos hd]
    exact
      { definitions := { hf.definitions with
          interfaces := hf.definitions.interfaces.map fun _ _ hi =>
            { hi.toFollows.markDeprecated with name := hi.name } }
        partialInterfaces := List.forall_mem_map.2 fun i hi =>
          (hf.partialInterfaces i hi).markDeprecated
        partialMixins := List.forall_mem_map.2 fun i hi => (hf.partialMixins i hi).markDeprecated
        partialDictionaries := hf.partialDictionaries }
  · rw [if_neg hd]
    exact hf

end Parts

end IdlDecls
