import IdlDecls.Model.Graph
import IdlDecls.View.Reach

/-!
# Names that definitions mention

What a definition refers to: the parent and the mixins of an interface, and every name in the types
of its members, at any depth. Enumerations mention nothing.
-/

namespace IdlDecls

/-- The names in the result and the parameters of a signature (`signature_refs`). -/
def Signature.mentions (s : Signature) : List String :=
  s.type.names ++ s.params.flatMap fun p => p.type.names

/-- The names in several signatures. -/
def mentionsOfSignatures (signatures : List Signature) : List String :=
  signatures.flatMap (·.mentions)

/-- The names that an interface mentions (`interface_refs`). -/
def Interface.mentions (i : Interface) : List String :=
  i.parent.toList ++ i.implements.getD [] ++
    (valuesOf i.constants).flatMap (fun c => c.type.names) ++
    (valuesOf i.properties).flatMap (fun p => p.type.names) ++
    (valuesOf i.methods).flatMap (fun m => mentionsOfSignatures m.signatures) ++
    i.constructor.toList.flatMap (fun c => mentionsOfSignatures c.signatures) ++
    i.iterator.toList.flatMap (fun d => d.types.flatMap (·.names))

/-- The names that a dictionary mentions (`dictionary_refs`). -/
def Dictionary.mentions (d : Dictionary) : List String :=
  d.parent.toList ++ (valuesOf d.members).flatMap fun m => m.type.names

/-- The names that a callback function mentions. -/
def CallbackFunction.mentions (f : CallbackFunction) : List String :=
  mentionsOfSignatures f.signatures

/-- The link from an interface to the names that it mentions. -/
def Interface.link (i : Interface) : Link := ⟨i.name, i.mentions⟩

/-- The link from a dictionary to the names that it mentions. -/
def Dictionary.link (d : Dictionary) : Link := ⟨d.name, d.mentions⟩

/-- The link from a callback function to the names that it mentions. -/
def CallbackFunction.link (f : CallbackFunction) : Link := ⟨f.name, f.mentions⟩

/-- The link from a type definition to the names that it mentions. -/
def Typedef.link (t : Typedef) : Link := ⟨t.name, t.type.names⟩

end IdlDecls
