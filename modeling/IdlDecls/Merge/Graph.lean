import IdlDecls.Merge.Field
import IdlDecls.Model.Graph

/-!
# Merging graphs

Every type merges field by field, in a fixed order that decides which of several conflicts is
reported. A definition keeps its own name. Signature lists and iterator types are joined, the values
of enumerations and included mixins are united, and everything else merges by the kind of its field.
Definitions and their fields fall under the policy for entries; the members of interfaces and
dictionaries, constructors and iterator declarations fall under the one for members.
-/

namespace IdlDecls

open Merging Merge

/-! ## Members -/

/-- Merges type references part by part (`merge_from`). -/
def TypeRef.merge (active : Policy) (base addition : TypeRef) : Merging TypeRef := do
  let head ← within "type" (scalar active base.head addition.head)
  let arguments ← within "subtype" (scalar active base.arguments addition.arguments)
  let nullable ← within "nullable" (scalar active base.nullable addition.nullable)
  pure ⟨head, arguments, nullable⟩

/-- Merges a constant into another (`merge_from`). -/
def Constant.merge (active : Policy) (base addition : Constant) : Merging Constant := do
  let type ← base.type.merge active addition.type
  let value ← within "value" (literal active base.value addition.value)
  let comment ← within "comment" (scalar active base.comment addition.comment)
  let exposed ← within "exposed" (exposure active base.exposed addition.exposed)
  let extra ← extras active base.extra addition.extra
  pure { base with type, value, comment, exposed, extra }

/-- Merges a method into another; the overloads of the addition come last (`merge_from`). -/
def Method.merge (active : Policy) (base addition : Method) : Merging Method := do
  let isStatic ← within "static" (scalar active base.isStatic addition.isStatic)
  let comment ← within "comment" (scalar active base.comment addition.comment)
  let exposed ← within "exposed" (exposure active base.exposed addition.exposed)
  let deprecated ← within "deprecated" (deprecation active base.deprecated addition.deprecated)
  let extra ← extras active base.extra addition.extra
  pure { base with
    signatures := base.signatures ++ addition.signatures
    isStatic, comment, exposed, deprecated, extra }

/-- Merges a property into another (`merge_from`). -/
def Property.merge (active : Policy) (base addition : Property) : Merging Property := do
  let type ← base.type.merge active addition.type
  let readOnly ← within "read-only" (scalar active base.readOnly addition.readOnly)
  let isStatic ← within "static" (scalar active base.isStatic addition.isStatic)
  let comment ← within "comment" (scalar active base.comment addition.comment)
  let exposed ← within "exposed" (exposure active base.exposed addition.exposed)
  let deprecated ← within "deprecated" (deprecation active base.deprecated addition.deprecated)
  let extra ← extras active base.extra addition.extra
  pure { base with type, readOnly, isStatic, comment, exposed, deprecated, extra }

/-- Merges a constructor into another; the overloads of the addition come last (`merge_from`). -/
def Constructor.merge (active : Policy) (base addition : Constructor) : Merging Constructor := do
  let comment ← within "comment" (scalar active base.comment addition.comment)
  let exposed ← within "exposed" (exposure active base.exposed addition.exposed)
  let extra ← extras active base.extra addition.extra
  pure { base with
    signatures := base.signatures ++ addition.signatures
    comment, exposed, extra }

/-- The kind of an iterator declaration is a single value that the empty text leaves out. -/
def IteratorDecl.mergeKind (active : Policy) (base addition : String) : Merging String :=
  if base = "" then .ok addition
  else if addition = "" then .ok base
  else settle active base addition

/-- Merges an iterator declaration into another; the types of the addition come last (`merge_from`). -/
def IteratorDecl.merge (active : Policy) (base addition : IteratorDecl) :
    Merging IteratorDecl := do
  let kind ← within "kind" (mergeKind active base.kind addition.kind)
  let readOnly ← within "readonly" (scalar active base.readOnly addition.readOnly)
  let extra ← extras active base.extra addition.extra
  pure { base with kind, types := base.types ++ addition.types, readOnly, extra }

/-- Merges a dictionary member into another (`merge_from`). -/
def Member.merge (active : Policy) (base addition : Member) : Merging Member := do
  let type ← base.type.merge active addition.type
  let required ← within "required" (scalar active base.required addition.required)
  let default ← within "default" (literal active base.default addition.default)
  let comment ← within "comment" (scalar active base.comment addition.comment)
  let extra ← extras active base.extra addition.extra
  pure { base with type, required, default, comment, extra }

/-! ## Definitions -/

/-- Merges the constants of an interface into those of another. -/
def Interface.mergeConstants (level : Policy) (base addition : Interface) :
    Merging (Option (Keyed Constant)) :=
  collection level "constants" "constant" (Constant.merge level) base.constants addition.constants

/-- Merges the methods of an interface into those of another. -/
def Interface.mergeMethods (level : Policy) (base addition : Interface) :
    Merging (Option (Keyed Method)) :=
  collection level "methods" "method" (Method.merge level) base.methods addition.methods

/-- Merges the properties of an interface into those of another. -/
def Interface.mergeProperties (level : Policy) (base addition : Interface) :
    Merging (Option (Keyed Property)) :=
  collection level "properties" "property" (Property.merge level) base.properties
    addition.properties

/-- Merges an interface into another (`merge_from`). -/
def Interface.merge (policy : MergePolicy) (base addition : Interface) : Merging Interface := do
  let parent ← within "extends" (scalar policy.entries base.parent addition.parent)
  let comment ← within "comment" (scalar policy.entries base.comment addition.comment)
  let constants ← base.mergeConstants policy.members addition
  let methods ← base.mergeMethods policy.members addition
  let properties ← base.mergeProperties policy.members addition
  let constructor ← within "constructor"
    (optional (Constructor.merge policy.members) base.constructor addition.constructor)
  let iterator ← within "iterator"
    (optional (IteratorDecl.merge policy.members) base.iterator addition.iterator)
  let exposed ← within "exposed" (exposure policy.entries base.exposed addition.exposed)
  let overrideExposed ← within "override-exposed"
    (exposure policy.entries base.overrideExposed addition.overrideExposed)
  let implements ← within "implements"
    (grown policy.entries unionNames base.implements addition.implements)
  let deprecated ← within "deprecated"
    (deprecation policy.entries base.deprecated addition.deprecated)
  let extra ← extras policy.entries base.extra addition.extra
  pure { base with
    parent, comment, constants, methods, properties, constructor, iterator, exposed,
    overrideExposed, implements, deprecated, extra }

/-- Merges the members of a dictionary into those of another. -/
def Dictionary.mergeMemberMap (level : Policy) (base addition : Dictionary) :
    Merging (Option (Keyed Member)) :=
  collection level "members" "member" (Member.merge level) base.members addition.members

/-- Merges a dictionary into another (`merge_from`). -/
def Dictionary.merge (policy : MergePolicy) (base addition : Dictionary) :
    Merging Dictionary := do
  let parent ← within "extends" (scalar policy.entries base.parent addition.parent)
  let comment ← within "comment" (scalar policy.entries base.comment addition.comment)
  let members ← base.mergeMemberMap policy.members addition
  let extra ← extras policy.entries base.extra addition.extra
  pure { base with parent, comment, members, extra }

/-- Merges an enumeration into another; new values come last (`merge_from`). -/
def Enumeration.merge (active : Policy) (base addition : Enumeration) : Merging Enumeration := do
  let comment ← within "comment" (scalar active base.comment addition.comment)
  let extra ← extras active base.extra addition.extra
  pure { base with values := unionNames base.values addition.values, comment, extra }

/-- Merges a callback function into another; the overloads of the addition come last (`merge_from`). -/
def CallbackFunction.merge (active : Policy) (base addition : CallbackFunction) :
    Merging CallbackFunction := do
  let comment ← within "comment" (scalar active base.comment addition.comment)
  let extra ← extras active base.extra addition.extra
  pure { base with
    signatures := base.signatures ++ addition.signatures
    comment, extra }

/-- Merges a type definition into another (`merge_from`). -/
def Typedef.merge (active : Policy) (base addition : Typedef) : Merging Typedef := do
  let type ← base.type.merge active addition.type
  let comment ← within "comment" (scalar active base.comment addition.comment)
  let extra ← extras active base.extra addition.extra
  pure { base with type, comment, extra }

/-! ## Graphs -/

/-- Merges type definitions by name (`identified`). -/
def mergeTypedefs (level : Policy) : List Typedef → List Typedef → Merging (List Typedef) :=
  identified level Typedef.name (Typedef.merge level)

/-- Merges namespaces by name (`identified`). -/
def mergeNamespaces (policy : MergePolicy) :
    List Interface → List Interface → Merging (List Interface) :=
  identified policy.entries Interface.name (Interface.merge policy)

/-- Merges a graph into another (`merge`). -/
def Graph.merge (policy : MergePolicy) (base addition : Graph) : Merging Graph := do
  let level := policy.entries
  let callbackFunctions ← collection level "callback-functions" "callback-function"
    (CallbackFunction.merge level) base.callbackFunctions addition.callbackFunctions
  let callbackInterfaces ← collection level "callback-interfaces" "interface"
    (Interface.merge policy) base.callbackInterfaces addition.callbackInterfaces
  let dictionaries ← collection level "dictionaries" "dictionary"
    (Dictionary.merge policy) base.dictionaries addition.dictionaries
  let enums ← collection level "enums" "enum"
    (Enumeration.merge level) base.enums addition.enums
  let interfaces ← collection level "interfaces" "interface"
    (Interface.merge policy) base.interfaces addition.interfaces
  let mixins ← collection level "mixins" "mixin"
    (Interface.merge policy) base.mixins addition.mixins
  let typedefs ← within "typedefs" (optional
    (fun old value => within "typedef" (mergeTypedefs level old value))
    base.typedefs addition.typedefs)
  let namespaces ← match addition.namespaces with
    | none => pure base.namespaces
    | some items =>
      within "namespaces" (some <$> mergeNamespaces policy (base.namespaces.getD []) items)
  let extra ← extras level base.extra addition.extra
  pure { callbackFunctions, callbackInterfaces, dictionaries, enums, interfaces, mixins, typedefs,
         namespaces, extra }

/-! ## Members only -/

/-- Merges the constants, methods and properties of an interface into those of another and leaves
everything else as it is (`merge_members`). -/
def Interface.mergeMembers (policy : MergePolicy) (base addition : Interface) :
    Merging Interface :=
  within base.name do
    let constants ← base.mergeConstants policy.members addition
    let methods ← base.mergeMethods policy.members addition
    let properties ← base.mergeProperties policy.members addition
    pure { base with constants, methods, properties }

/-- Merges the members of a dictionary into those of another and leaves everything else as it is
(`merge_dictionary_members`). -/
def Dictionary.mergeMembers (policy : MergePolicy) (base addition : Dictionary) :
    Merging Dictionary :=
  within base.name do
    let members ← base.mergeMemberMap policy.members addition
    pure { base with members }

end IdlDecls
