import IdlDecls.Declarations.Block
import IdlDecls.Declarations.TypeText
import IdlDecls.Model.Graph

/-!
# Declaration files

`emit` writes a graph as a file of TypeScript declarations. The files for windows and workers hold
every definition, the one for iterators only the iteration methods of what declares an iterator. A
definition without a name cannot be written.
-/

namespace IdlDecls

/-- Which file is written. -/
inductive Flavor where
  /-- The definitions that windows see. -/
  | web
  /-- The definitions that workers see. -/
  | worker
  /-- The iteration methods of everything iterable. -/
  | iterators
deriving DecidableEq, Repr

/-- The title of a file. -/
def Flavor.title : Flavor → String
  | .web => "Window APIs"
  | .worker => "Worker APIs"
  | .iterators => "Window Iterable APIs"

/-- The kinds of definitions that are written. -/
inductive Kind where
  | dictionary
  | mixin
  | interface
  | callbackInterface
  | callbackFunction
  | nameSpace
  | typedef
  | enum
deriving DecidableEq, Repr

/-- The kind in words. -/
def Kind.text : Kind → String
  | .dictionary => "dictionary"
  | .mixin => "mixin"
  | .interface => "interface"
  | .callbackInterface => "callback interface"
  | .callbackFunction => "callback function"
  | .nameSpace => "namespace"
  | .typedef => "typedef"
  | .enum => "enum"

/-- Why a graph cannot be written. -/
inductive EmitError where
  /-- A definition has no name. -/
  | unnamed (kind : Kind)
deriving DecidableEq, Repr

/-- The message for a graph that cannot be written. -/
def EmitError.message : EmitError → String
  | .unnamed kind => "Cannot emit " ++ kind.text ++ " without a name"

/-- Declarations of a definition with a name (`named`). -/
def named (kind : Kind) (name : String) (declarations : List Declaration) :
    Except EmitError (List Declaration) :=
  if name = "" then .error (.unnamed kind) else .ok declarations

open Declaration

/-! ## Members -/

/-- A parameter; a variadic one has the array of its type. -/
def Param.text (p : Param) : String :=
  if p.variadic.getD false then "..." ++ p.name ++ ": " ++ arrayText p.type.text
  else if p.optional.getD false then p.name ++ "?: " ++ p.type.text
  else p.name ++ ": " ++ p.type.text

/-- Parameters with commas between them (`params`). -/
def paramsText (params : List Param) : String :=
  ", ".intercalate (params.map Param.text)

/-- The parameters and the result of a signature (`call_signature`). -/
def Signature.text (s : Signature) : String :=
  "(" ++ paramsText s.params ++ "): " ++ s.type.text

/-- A constant; its documentation stands in the interface and not in the interface object. -/
def Constant.line (c : Constant) : String :=
  "readonly " ++ c.name ++ ": " ++ c.type.text

/-- A constant of an interface. -/
def Constant.item (c : Constant) : Item :=
  ⟨docOf c.comment false, [c.line]⟩

/-- A property of an interface or an interface object (`emit_property`). -/
def Property.item (p : Property) : Item :=
  ⟨docOf p.comment (p.deprecated.getD false),
    [(if p.readOnly.getD false then "readonly " else "") ++ p.name ++ ": " ++ p.type.text]⟩

/-- A method with a line for each overload; one without overloads takes nothing and returns nothing
(`emit_method`). -/
def Method.item (m : Method) : Item :=
  ⟨docOf m.comment (m.deprecated.getD false),
    if m.signatures.isEmpty then [m.name ++ "(): void"]
    else m.signatures.map fun s => m.name ++ s.text⟩

/-- The properties that are static, or those that are not. -/
def Interface.propertyItems (isStatic : Bool) (i : Interface) : List Item :=
  ((valuesOf i.properties).filter fun p => p.isStatic.getD false = isStatic).map Property.item

/-- The methods that are static, or those that are not. -/
def Interface.methodItems (isStatic : Bool) (i : Interface) : List Item :=
  ((valuesOf i.methods).filter fun m => m.isStatic.getD false = isStatic).map Method.item

/-! ## Definitions -/

/-- What an interface extends: its parent, unless that is `Object`, and its mixins. -/
def Interface.parents (i : Interface) : List String :=
  (i.parent.toList.filter (· ≠ "Object")) ++ i.implements.getD []

/-- The heading of an interface. -/
def Interface.heading (i : Interface) : String :=
  "interface " ++ i.name ++
    (if i.parents.isEmpty then "" else " extends " ++ ", ".intercalate i.parents)

/-- An interface: its constants and what is not static (`emit_interface`). -/
def Interface.declaration (i : Interface) : Declaration :=
  .block (docOf i.comment i.isDeprecated) i.heading
    ((valuesOf i.constants).map Constant.item ++ i.propertyItems false ++ i.methodItems false) "\x7d"

/-- The constructors of an interface. -/
def Interface.constructorItems (i : Interface) : List Item :=
  (i.constructor.toList.flatMap (·.signatures)).map fun s =>
    ⟨[], ["new(" ++ paramsText s.params ++ "): " ++ i.name]⟩

/-- The interface object: its prototype, constructors, constants and what is static
(`emit_interface_object`). -/
def Interface.objectDeclaration (i : Interface) : Declaration :=
  .block [] ("declare var " ++ i.name ++ ":")
    (⟨[], ["prototype: " ++ i.name]⟩ :: i.constructorItems ++
      (valuesOf i.constants).map (fun c => ⟨[], [c.line]⟩) ++
      i.propertyItems true ++ i.methodItems true) "\x7d;"

/-- A dictionary (`emit_dictionary`). -/
def Dictionary.declaration (d : Dictionary) : Declaration :=
  .block (docOf d.comment false)
    ("interface " ++ d.name ++ (match d.parent with
      | none => ""
      | some parent => " extends " ++ parent))
    ((valuesOf d.members).map fun m =>
      ⟨[], [m.name ++ (if m.required.getD false then "" else "?") ++ ": " ++ m.type.text]⟩) "\x7d"

/-- A callback function (`emit_callback`). -/
def CallbackFunction.declaration (f : CallbackFunction) : Declaration :=
  .block (docOf f.comment false) ("interface " ++ f.name)
    (f.signatures.map fun s => ⟨[], [s.text]⟩) "\x7d"

/-- A namespace: its properties as variables and the overloads of its methods as functions
(`emit_namespace`). -/
def Interface.namespaceDeclaration (n : Interface) : Declaration :=
  .block (docOf n.comment n.isDeprecated) ("declare namespace " ++ n.name)
    ((valuesOf n.properties).map (fun p =>
        ⟨[], [(if p.readOnly.getD false then "const " else "var ") ++ p.name ++ ": " ++
          p.type.text]⟩) ++
      (valuesOf n.methods).map fun m =>
        ⟨[], m.signatures.map fun s => "function " ++ m.name ++ s.text⟩) "\x7d"

/-- A type definition (`emit_typedef`). -/
def Typedef.declaration (t : Typedef) : Declaration :=
  .typeAlias t.name t.type.text

/-- An enumeration: the union of its values, or no type at all without values (`emit_enum`). -/
def Enumeration.declaration (e : Enumeration) : Declaration :=
  .typeAlias e.name
    (if e.values.isEmpty then "never"
      else " | ".intercalate (e.values.map fun v => "\"" ++ v ++ "\""))

/-! ## Iterators -/

/-- The key and the value type of an iterator (`iterator_types`). A single type is the value,
counted by numbers, or in a set by itself. -/
def IteratorDecl.entryTypes? (d : IteratorDecl) : Option (String × String) :=
  match d.types with
  | [] => none
  | [value] => some (if d.kind = "setlike" then value.text else "number", value.text)
  | key :: value :: _ => some (key.text, value.text)

/-- What the iterator itself yields: the value where there is one type and no map, else a pair. -/
def IteratorDecl.yields (d : IteratorDecl) (key value : String) : String :=
  if d.types.length = 1 ∧ d.kind ≠ "maplike" then value else "[" ++ key ++ ", " ++ value ++ "]"

/-- The iteration methods of an interface or mixin that declares an iterator with types (in
`emit_iterators`). -/
def Interface.iteratorDeclarations (i : Interface) : Except EmitError (List Declaration) :=
  match i.iterator with
  | none => .ok []
  | some d =>
    named .interface i.name <|
      match d.entryTypes? with
      | none => []
      | some (key, value) =>
        let method (name item : String) : Item :=
          ⟨[], [name ++ "(): IterableIterator<" ++ item ++ ">"]⟩
        [.block [] ("interface " ++ i.name)
          [method "[Symbol.iterator]" (d.yields key value),
            method "entries" ("[" ++ key ++ ", " ++ value ++ "]"),
            method "keys" key,
            method "values" value] "\x7d"]

/-! ## Files -/

/-- The declarations of parts, in order; the first part that cannot be written decides. -/
def declarationsOf {α : Type} (declare : α → Except EmitError (List Declaration)) (parts : List α) :
    Except EmitError (List Declaration) :=
  List.flatten <$> parts.mapM declare

/-- The declarations of every definition (`emit_declarations`). -/
def Graph.declarations (g : Graph) : Except EmitError (List Declaration) := do
  let dictionaries ← declarationsOf (fun d => named .dictionary d.name [d.declaration])
    (valuesOf g.dictionaries)
  let mixins ← declarationsOf (fun m => named .mixin m.name [m.declaration]) (valuesOf g.mixins)
  let interfaces ← declarationsOf
    (fun i => named .interface i.name [i.declaration, i.objectDeclaration]) (valuesOf g.interfaces)
  let callbackInterfaces ← declarationsOf
    (fun i => named .callbackInterface i.name [i.declaration]) (valuesOf g.callbackInterfaces)
  let callbackFunctions ← declarationsOf
    (fun f => named .callbackFunction f.name [f.declaration]) (valuesOf g.callbackFunctions)
  let namespaces ← declarationsOf (fun n => named .nameSpace n.name [n.namespaceDeclaration])
    (g.namespaces.getD [])
  let typedefs ← declarationsOf (fun t => named .typedef t.name [t.declaration])
    (g.typedefs.getD [])
  let enums ← declarationsOf (fun e => named .enum e.name [e.declaration]) (valuesOf g.enums)
  pure (dictionaries ++ mixins ++ interfaces ++ callbackInterfaces ++ callbackFunctions ++
    namespaces ++ typedefs ++ enums)

/-- The iteration methods of interfaces and mixins (`emit_iterators`). -/
def Graph.iteratorDeclarations (g : Graph) : Except EmitError (List Declaration) :=
  declarationsOf Interface.iteratorDeclarations (valuesOf g.interfaces ++ valuesOf g.mixins)

/-- The declarations of a file. -/
def Graph.declarationsFor (g : Graph) : Flavor → Except EmitError (List Declaration)
  | .web | .worker => g.declarations
  | .iterators => g.iteratorDeclarations

/-- The lines at the top of a file (`banner`). -/
def Flavor.banner (f : Flavor) : String :=
  "/////////////////////////////\n/// " ++ f.title ++ "\n/////////////////////////////\n\n"

/-- A file of declarations (`emit`). -/
def emit (g : Graph) (flavor : Flavor) : Except EmitError String :=
  (g.declarationsFor flavor).map fun declarations =>
    flavor.banner ++ String.join (declarations.map Declaration.text)

end IdlDecls
