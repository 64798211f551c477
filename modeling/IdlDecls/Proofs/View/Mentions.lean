import IdlDecls.Proofs.Keyed.Joined
import IdlDecls.View.References

/-!
# What it is to mention a name

`TypeRef.Mentions` says at which places of a type a name can stand, and the predicates of the
definitions say which of their types count. The lists that the view searches by hold exactly these
names (`mem_mentions_iff` of each definition).
-/

namespace IdlDecls

/-! ## Types -/

/-- A type mentions a name: as what it refers to, in a member of its union or in a generic argument,
at any depth. -/
inductive TypeRef.Mentions : TypeRef → String → Prop where
  | named {type : TypeRef} {name : String} :
      type.head = some (.named name) → TypeRef.Mentions type name
  | member {type member : TypeRef} {members : List TypeRef} {name : String} :
      type.head = some (.union members) → member ∈ members → TypeRef.Mentions member name →
      TypeRef.Mentions type name
  | argument {type argument : TypeRef} {name : String} :
      argument ∈ type.argumentList → TypeRef.Mentions argument name → TypeRef.Mentions type name

mutual

theorem TypeRef.mentions_of_mem_names : ∀ (type : TypeRef) {name : String},
    name ∈ type.names → type.Mentions name
  | .mk head arguments nullable, name, h => by
    rw [TypeRef.names.eq_def, List.mem_append] at h
    rcases h with h | h
    · cases head with
      | none => cases h
      | some head =>
        cases head with
        | named own =>
          rw [List.mem_singleton.1 h]
          exact .named rfl
        | union members =>
          obtain ⟨member, hmember, hm⟩ := TypeRef.mentions_of_mem_namesOfList members h
          exact .member rfl hmember hm
    · cases arguments with
      | none => cases h
      | some arguments =>
        cases arguments with
        | many types =>
          obtain ⟨argument, hargument, ha⟩ := TypeRef.mentions_of_mem_namesOfList types h
          exact .argument hargument ha
        | one argument =>
          exact .argument (List.mem_singleton.2 rfl) (argument.mentions_of_mem_names h)

theorem TypeRef.mentions_of_mem_namesOfList : ∀ (types : List TypeRef) {name : String},
    name ∈ TypeRef.namesOfList types → ∃ type ∈ types, type.Mentions name
  | [], _, h => by cases h
  | type :: rest, name, h => by
    rw [TypeRef.namesOfList, List.mem_append] at h
    rcases h with h | h
    · exact ⟨type, by simp, type.mentions_of_mem_names h⟩
    · obtain ⟨other, hother, hm⟩ := TypeRef.mentions_of_mem_namesOfList rest h
      exact ⟨other, by simp [hother], hm⟩

end

theorem TypeRef.mem_namesOfList {types : List TypeRef} {name : String} :
    name ∈ TypeRef.namesOfList types ↔ ∃ type ∈ types, name ∈ type.names := by
  induction types with
  | nil => simp [TypeRef.namesOfList]
  | cons type rest ih => simp [TypeRef.namesOfList, ih]

/-- **The names of a type are those that it mentions.** -/
theorem TypeRef.mem_names_iff {type : TypeRef} {name : String} :
    name ∈ type.names ↔ type.Mentions name := by
  refine ⟨type.mentions_of_mem_names, fun h => ?_⟩
  induction h with
  | @named type name hhead =>
    obtain ⟨head, arguments, nullable⟩ := type
    obtain rfl : head = some (.named name) := hhead
    simp [TypeRef.names.eq_def, TypeHead.names]
  | @member type member members name hhead hmember _ ih =>
    obtain ⟨head, arguments, nullable⟩ := type
    obtain rfl : head = some (.union members) := hhead
    have hmem : name ∈ TypeRef.namesOfList members := TypeRef.mem_namesOfList.2 ⟨member, hmember, ih⟩
    simp [TypeRef.names.eq_def, TypeHead.names, hmem]
  | @argument type argument name hargument _ ih =>
    obtain ⟨head, arguments, nullable⟩ := type
    cases arguments with
    | none => cases hargument
    | some arguments =>
      cases arguments with
      | many types =>
        have hmem : name ∈ TypeRef.namesOfList types :=
          TypeRef.mem_namesOfList.2 ⟨argument, hargument, ih⟩
        simp [TypeRef.names.eq_def, TypeArguments.names, hmem]
      | one type =>
        rw [List.mem_singleton.1 hargument] at ih
        have hmem : name ∈ (TypeArguments.one type).names := by rw [TypeArguments.names]; exact ih
        rw [TypeRef.names.eq_def]
        exact List.mem_append_right _ hmem

/-! ## Definitions -/

/-- A signature mentions a name in its result or in a parameter. -/
def Signature.Mentions (s : Signature) (name : String) : Prop :=
  s.type.Mentions name ∨ ∃ p ∈ s.params, p.type.Mentions name

theorem mem_mentionsOfSignatures_iff {signatures : List Signature} {name : String} :
    name ∈ mentionsOfSignatures signatures ↔ ∃ s ∈ signatures, s.Mentions name := by
  simp only [mentionsOfSignatures, Signature.mentions, Signature.Mentions, List.mem_flatMap,
    List.mem_append, TypeRef.mem_names_iff]

/-- An interface mentions its parent, the mixins that it includes and the names in the types of its
members, its constructor and its iterator declaration. -/
inductive Interface.Mentions (i : Interface) (name : String) : Prop where
  | parent : i.parent = some name → Interface.Mentions i name
  | mixin : name ∈ i.implements.getD [] → Interface.Mentions i name
  | constant {key : String} {c : Constant} :
      i.constant? key = some c → c.type.Mentions name → Interface.Mentions i name
  | property {key : String} {p : Property} :
      i.property? key = some p → p.type.Mentions name → Interface.Mentions i name
  | method {key : String} {m : Method} {s : Signature} :
      i.method? key = some m → s ∈ m.signatures → s.Mentions name → Interface.Mentions i name
  | constructor {c : Constructor} {s : Signature} :
      i.constructor = some c → s ∈ c.signatures → s.Mentions name → Interface.Mentions i name
  | iterator {d : IteratorDecl} {type : TypeRef} :
      i.iterator = some d → type ∈ d.types → type.Mentions name → Interface.Mentions i name

theorem Interface.mem_mentions_iff {i : Interface} {name : String} :
    name ∈ i.mentions ↔ i.Mentions name := by
  simp only [mentions, List.mem_append, List.mem_flatMap, Option.mem_toList, mem_valuesOf,
    TypeRef.mem_names_iff, mem_mentionsOfSignatures_iff]
  constructor
  · rintro ((((((hparent | hmixin) | ⟨c, ⟨key, hc⟩, hm⟩) | ⟨p, ⟨key, hp⟩, hm⟩) |
      ⟨m, ⟨key, hmethod⟩, s, hs, hm⟩) | ⟨c, hc, s, hs, hm⟩) | ⟨d, hd, type, htype, hm⟩)
    · exact .parent hparent
    · exact .mixin hmixin
    · exact .constant hc hm
    · exact .property hp hm
    · exact .method hmethod hs hm
    · exact .constructor hc hs hm
    · exact .iterator hd htype hm
  · rintro (hparent | hmixin | ⟨hc, hm⟩ | ⟨hp, hm⟩ | ⟨hmethod, hs, hm⟩ | ⟨hc, hs, hm⟩ |
      ⟨hd, htype, hm⟩)
    · simp [hparent]
    · simp [hmixin]
    · exact Or.inl (Or.inl (Or.inl (Or.inl (Or.inr ⟨_, ⟨_, hc⟩, hm⟩))))
    · exact Or.inl (Or.inl (Or.inl (Or.inr ⟨_, ⟨_, hp⟩, hm⟩)))
    · exact Or.inl (Or.inl (Or.inr ⟨_, ⟨_, hmethod⟩, _, hs, hm⟩))
    · exact Or.inl (Or.inr ⟨_, hc, _, hs, hm⟩)
    · exact Or.inr ⟨_, hd, _, htype, hm⟩

/-- A dictionary mentions its parent and the names in the types of its members. -/
def Dictionary.Mentions (d : Dictionary) (name : String) : Prop :=
  d.parent = some name ∨ ∃ key m, lookup? d.members key = some m ∧ m.type.Mentions name

theorem Dictionary.mem_mentions_iff {d : Dictionary} {name : String} :
    name ∈ d.mentions ↔ d.Mentions name := by
  simp only [mentions, Mentions, List.mem_append, List.mem_flatMap, Option.mem_toList, mem_valuesOf,
    TypeRef.mem_names_iff]
  refine or_congr_right ?_
  constructor
  · rintro ⟨m, ⟨key, hm⟩, hname⟩; exact ⟨key, m, hm, hname⟩
  · rintro ⟨key, m, hm, hname⟩; exact ⟨m, ⟨key, hm⟩, hname⟩

/-- A callback function mentions the names in its signatures. -/
def CallbackFunction.Mentions (f : CallbackFunction) (name : String) : Prop :=
  ∃ s ∈ f.signatures, s.Mentions name

theorem CallbackFunction.mem_mentions_iff {f : CallbackFunction} {name : String} :
    name ∈ f.mentions ↔ f.Mentions name :=
  mem_mentionsOfSignatures_iff

end IdlDecls
