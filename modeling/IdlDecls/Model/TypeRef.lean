/-!
# Type references

A type as it stands on properties, parameters and signatures: a name or a union, with generic
arguments and a nullable mark, each of which may be left out. `TypeRef.names` lists every name that
a reference mentions, its own or its union's first and those of its arguments after them.
-/

namespace IdlDecls

mutual

/-- A reference to a type (`Typed`). -/
inductive TypeRef where
  | mk (head : Option TypeHead) (arguments : Option TypeArguments) (nullable : Option Bool)

/-- What a reference refers to: a named type, or one of several (`TypeName`). -/
inductive TypeHead where
  | named (name : String)
  | union (members : List TypeRef)

/-- The generic arguments of a reference: a list, or one that stands alone (`Subtype`). -/
inductive TypeArguments where
  | many (types : List TypeRef)
  | one (type : TypeRef)

end

namespace TypeRef

/-- What the reference refers to. -/
def head : TypeRef → Option TypeHead
  | mk head _ _ => head

/-- The generic arguments. -/
def arguments : TypeRef → Option TypeArguments
  | mk _ arguments _ => arguments

/-- Whether the type admits null as well. -/
def nullable : TypeRef → Option Bool
  | mk _ _ nullable => nullable

/-- The reference that says nothing. -/
def unspecified : TypeRef := ⟨none, none, none⟩

instance : Inhabited TypeRef := ⟨unspecified⟩

end TypeRef

/-- The arguments as a list. -/
def TypeArguments.toList : TypeArguments → List TypeRef
  | many types => types
  | one type => [type]

/-- The generic arguments of a reference as a list (`subtypes`). -/
def TypeRef.argumentList (t : TypeRef) : List TypeRef :=
  match t.arguments with
  | none => []
  | some arguments => arguments.toList

/-! ## Mentioned names -/

mutual

/-- Every name that a reference mentions, in order (`referenced_names`, by `collect_names`). -/
def TypeRef.names : TypeRef → List String
  | .mk head arguments _ =>
    (match head with
      | none => []
      | some head => head.names) ++
    (match arguments with
      | none => []
      | some arguments => arguments.names)

/-- Every name that a head mentions. -/
def TypeHead.names : TypeHead → List String
  | .named name => [name]
  | .union members => TypeRef.namesOfList members

/-- Every name that generic arguments mention. -/
def TypeArguments.names : TypeArguments → List String
  | .many types => TypeRef.namesOfList types
  | .one type => type.names

/-- Every name that the references of a list mention. -/
def TypeRef.namesOfList : List TypeRef → List String
  | [] => []
  | t :: rest => t.names ++ TypeRef.namesOfList rest

end

/-! ## Equality -/

mutual

/-- Whether two references are the same. -/
def TypeRef.same : TypeRef → TypeRef → Bool
  | .mk none none n, .mk none none m => n == m
  | .mk (some h) none n, .mk (some k) none m => h.same k && n == m
  | .mk none (some a) n, .mk none (some b) m => a.same b && n == m
  | .mk (some h) (some a) n, .mk (some k) (some b) m => h.same k && a.same b && n == m
  | _, _ => false

/-- Whether two heads are the same. -/
def TypeHead.same : TypeHead → TypeHead → Bool
  | .named a, .named b => a == b
  | .union as, .union bs => TypeRef.sameList as bs
  | _, _ => false

/-- Whether two arguments are the same, in number of forms too. -/
def TypeArguments.same : TypeArguments → TypeArguments → Bool
  | .many as, .many bs => TypeRef.sameList as bs
  | .one a, .one b => a.same b
  | _, _ => false

/-- Whether two lists hold the same references. -/
def TypeRef.sameList : List TypeRef → List TypeRef → Bool
  | [], [] => true
  | a :: as, b :: bs => a.same b && TypeRef.sameList as bs
  | _, _ => false

end

mutual

theorem TypeRef.same_iff : (a b : TypeRef) → (a.same b = true ↔ a = b)
  | .mk none none n, b => by
    obtain ⟨_ | k, _ | c, m⟩ := b <;> simp [TypeRef.same]
  | .mk (some h) none n, b => by
    obtain ⟨_ | k, _ | c, m⟩ := b <;> simp [TypeRef.same, TypeHead.same_iff h]
  | .mk none (some a) n, b => by
    obtain ⟨_ | k, _ | c, m⟩ := b <;> simp [TypeRef.same, TypeArguments.same_iff a]
  | .mk (some h) (some a) n, b => by
    obtain ⟨_ | k, _ | c, m⟩ := b <;>
      simp [TypeRef.same, TypeHead.same_iff h, TypeArguments.same_iff a, and_assoc]

theorem TypeHead.same_iff : (a b : TypeHead) → (a.same b = true ↔ a = b)
  | .named _, b => by cases b <;> simp [TypeHead.same]
  | .union as, b => by cases b <;> simp [TypeHead.same, TypeRef.sameList_iff as]

theorem TypeArguments.same_iff : (a b : TypeArguments) → (a.same b = true ↔ a = b)
  | .many as, b => by cases b <;> simp [TypeArguments.same, TypeRef.sameList_iff as]
  | .one a, b => by cases b <;> simp [TypeArguments.same, TypeRef.same_iff a]

theorem TypeRef.sameList_iff : (as bs : List TypeRef) → (TypeRef.sameList as bs = true ↔ as = bs)
  | [], bs => by cases bs <;> simp [TypeRef.sameList]
  | a :: as, bs => by
    cases bs <;> simp [TypeRef.sameList, TypeRef.same_iff a, TypeRef.sameList_iff as]

end

instance : DecidableEq TypeRef := fun a b => decidable_of_iff (a.same b = true) (a.same_iff b)
instance : DecidableEq TypeHead := fun a b => decidable_of_iff (a.same b = true) (a.same_iff b)
instance : DecidableEq TypeArguments := fun a b =>
  decidable_of_iff (a.same b = true) (a.same_iff b)

end IdlDecls
