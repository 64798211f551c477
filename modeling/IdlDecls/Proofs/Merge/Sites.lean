import IdlDecls.Merge.Graph

/-!
# Sites in a graph

A graph is a tree whose branches go by field names, keys and identities, the segments of which the
paths of conflicts are made. `Tree.Leads` follows a path from the root, and `Site.Clash` says of two
graphs that have something at one site whether a merge policy forbids to merge it there. Neither of
them speaks of merging.
-/

namespace IdlDecls

/-! ## Levels -/

/-- The two levels of a graph that a merge policy tells apart. -/
inductive Level where
  /-- Definitions and their own fields. -/
  | entries
  /-- Constants, methods, properties, constructors, iterator declarations and dictionary members,
  and everything below them. -/
  | members
deriving DecidableEq, Repr

/-- The policy that governs a level. -/
def MergePolicy.active (policy : MergePolicy) : Level → Policy
  | .entries => policy.entries
  | .members => policy.members

/-! ## Places -/

/-- What stands at a site. -/
inductive Content where
  /-- A record, or a collection of entries. -/
  | record
  /-- A definition or a member under its key or identity. -/
  | entry
  | text (value : String)
  | flag (value : Bool)
  | head (value : TypeHead)
  | arguments (value : TypeArguments)
  /-- JSON that is a single value. -/
  | literal (value : Json)
  /-- JSON without a meaning, at any depth of an extra field. -/
  | json (value : Json)
  /-- Contexts, of which there are some. -/
  | exposure (value : Exposure)
  | names (value : List String)
  /-- A mark that is never cleared. -/
  | mark (value : Bool)
deriving DecidableEq

/-- Merging the second value into the first would change the first. Sets change by growing; of JSON
without a meaning only what is neither an object on both sides nor an array on both. -/
def Content.Changes : Content → Content → Prop
  | .text old, .text new => new ≠ old
  | .flag old, .flag new => new ≠ old
  | .head old, .head new => new ≠ old
  | .arguments old, .arguments new => new ≠ old
  | .literal old, .literal new => new.unsignedZeros ≠ old.unsignedZeros
  | .json (.obj _), .json (.obj _) => False
  | .json (.arr _), .json (.arr _) => False
  | .json old, .json new => new.unsignedZeros ≠ old.unsignedZeros
  | .exposure old, .exposure new => ∃ context ∈ new.contexts, context ∉ old.contexts
  | .names old, .names new => ∃ name ∈ new, name ∉ old
  | .mark old, .mark new => old = false ∧ new = true
  | _, _ => False

/-- A site in a graph: its level and what stands there. -/
structure Site where
  level : Level
  content : Content
deriving DecidableEq

/-- A policy forbids to merge what two graphs have at a site: it rejects entries that both have, or
it lets nothing override what merging would change. -/
def Site.Clash (policy : MergePolicy) (old new : Site) : Prop :=
  old.level = new.level ∧
    (policy.active old.level = .reject ∧ old.content = .entry ∧ new.content = .entry ∨
      policy.active old.level ≠ .override ∧ old.content.Changes new.content)

/-! ## Trees -/

/-- A site with what stands below it. -/
inductive Tree where
  | node (here : Site) (branches : List (String × Tree))

/-- The path leads to a site. -/
def Tree.Leads : Tree → List String → Site → Prop
  | .node here _, [], site => here = site
  | .node _ branches, segment :: path, site =>
    ∃ tree, (segment, tree) ∈ branches ∧ tree.Leads path site

/-- A part that may be absent, without anything below it. -/
def leaf {α : Type} (level : Level) (key : String) (content : α → Content) (value : Option α) :
    List (String × Tree) :=
  (value.map fun value => (key, .node ⟨level, content value⟩ [])).toList

/-- A record or a collection that may be absent. -/
def inner {α : Type} (level : Level) (key : String) (branches : α → List (String × Tree))
    (value : Option α) : List (String × Tree) :=
  (value.map fun value => (key, .node ⟨level, .record⟩ (branches value))).toList

/-- Entries under their names. -/
def entryTrees {α : Type} (level : Level) (branches : α → List (String × Tree))
    (entries : List (String × α)) : List (String × Tree) :=
  entries.map fun e => (e.1, .node ⟨level, .entry⟩ (branches e.2))

/-- A collection under the names of its field and of its entries. -/
def collectionTrees {α : Type} (level : Level) (field entries : String)
    (branches : α → List (String × Tree)) (c : Option (Keyed α)) : List (String × Tree) :=
  inner level field
    (fun m => [(entries, .node ⟨level, .record⟩ (entryTrees level branches m.entries))]) c

/-- The items of a list that have an identity, under it. -/
def itemTrees {α : Type} (level : Level) (identity : α → String)
    (branches : α → List (String × Tree)) (items : List α) : List (String × Tree) :=
  entryTrees level branches ((items.filter (identity · ≠ "")).map fun item => (identity item, item))

/-! ## JSON -/

mutual

/-- A JSON value with the fields of its objects. -/
def Json.tree (level : Level) : Json → Tree
  | .obj fields => .node ⟨level, .json (.obj fields)⟩ (Json.fieldTrees level fields)
  | j => .node ⟨level, .json j⟩ []

/-- The fields of an object. -/
def Json.fieldTrees (level : Level) : List (String × Json) → List (String × Tree)
  | [] => []
  | (key, value) :: rest => (key, value.tree level) :: Json.fieldTrees level rest

end

/-- Extra fields. -/
def Extra.trees (level : Level) (extra : Extra) : List (String × Tree) :=
  Json.fieldTrees level extra.entries

/-! ## Members -/

def TypeRef.trees (level : Level) (t : TypeRef) : List (String × Tree) :=
  [leaf level "type" .head t.head, leaf level "subtype" .arguments t.arguments,
    leaf level "nullable" .flag t.nullable].flatten

def Constant.trees (c : Constant) : List (String × Tree) :=
  [c.type.trees .members, leaf .members "value" .literal c.value,
    leaf .members "comment" .text c.comment,
    leaf .members "exposed" .exposure (Exposure.nonempty? c.exposed),
    c.extra.trees .members].flatten

/-- Overloads are joined, so they are no part of the tree. -/
def Method.trees (m : Method) : List (String × Tree) :=
  [leaf .members "static" .flag m.isStatic, leaf .members "comment" .text m.comment,
    leaf .members "exposed" .exposure (Exposure.nonempty? m.exposed),
    leaf .members "deprecated" .mark m.deprecated, m.extra.trees .members].flatten

def Property.trees (p : Property) : List (String × Tree) :=
  [p.type.trees .members, leaf .members "read-only" .flag p.readOnly,
    leaf .members "static" .flag p.isStatic, leaf .members "comment" .text p.comment,
    leaf .members "exposed" .exposure (Exposure.nonempty? p.exposed),
    leaf .members "deprecated" .mark p.deprecated, p.extra.trees .members].flatten

def Constructor.trees (c : Constructor) : List (String × Tree) :=
  [leaf .members "comment" .text c.comment,
    leaf .members "exposed" .exposure (Exposure.nonempty? c.exposed),
    c.extra.trees .members].flatten

/-- The kind that is the empty text is absent. -/
def IteratorDecl.trees (i : IteratorDecl) : List (String × Tree) :=
  [leaf .members "kind" .text (if i.kind = "" then none else some i.kind),
    leaf .members "readonly" .flag i.readOnly, i.extra.trees .members].flatten

def Member.trees (m : Member) : List (String × Tree) :=
  [m.type.trees .members, leaf .members "required" .flag m.required,
    leaf .members "default" .literal m.default, leaf .members "comment" .text m.comment,
    m.extra.trees .members].flatten

/-! ## Definitions -/

def Interface.trees (i : Interface) : List (String × Tree) :=
  [leaf .entries "extends" .text i.parent, leaf .entries "comment" .text i.comment,
    collectionTrees .members "constants" "constant" Constant.trees i.constants,
    collectionTrees .members "methods" "method" Method.trees i.methods,
    collectionTrees .members "properties" "property" Property.trees i.properties,
    inner .members "constructor" Constructor.trees i.constructor,
    inner .members "iterator" IteratorDecl.trees i.iterator,
    leaf .entries "exposed" .exposure (Exposure.nonempty? i.exposed),
    leaf .entries "override-exposed" .exposure (Exposure.nonempty? i.overrideExposed),
    leaf .entries "implements" .names i.implements, leaf .entries "deprecated" .mark i.deprecated,
    i.extra.trees .entries].flatten

def Dictionary.trees (d : Dictionary) : List (String × Tree) :=
  [leaf .entries "extends" .text d.parent, leaf .entries "comment" .text d.comment,
    collectionTrees .members "members" "member" Member.trees d.members,
    d.extra.trees .entries].flatten

/-- Values are united, so they are no part of the tree. -/
def Enumeration.trees (e : Enumeration) : List (String × Tree) :=
  [leaf .entries "comment" .text e.comment, e.extra.trees .entries].flatten

def CallbackFunction.trees (f : CallbackFunction) : List (String × Tree) :=
  [leaf .entries "comment" .text f.comment, f.extra.trees .entries].flatten

def Typedef.trees (t : Typedef) : List (String × Tree) :=
  [t.type.trees .entries, leaf .entries "comment" .text t.comment,
    t.extra.trees .entries].flatten

/-! ## Graphs -/

def typedefTrees (items : List Typedef) : List (String × Tree) :=
  [("typedef", .node ⟨.entries, .record⟩ (itemTrees .entries Typedef.name Typedef.trees items))]

def namespaceTrees (items : List Interface) : List (String × Tree) :=
  itemTrees .entries Interface.name Interface.trees items

def Graph.trees (g : Graph) : List (String × Tree) :=
  [collectionTrees .entries "callback-functions" "callback-function" CallbackFunction.trees
      g.callbackFunctions,
    collectionTrees .entries "callback-interfaces" "interface" Interface.trees g.callbackInterfaces,
    collectionTrees .entries "dictionaries" "dictionary" Dictionary.trees g.dictionaries,
    collectionTrees .entries "enums" "enum" Enumeration.trees g.enums,
    collectionTrees .entries "interfaces" "interface" Interface.trees g.interfaces,
    collectionTrees .entries "mixins" "mixin" Interface.trees g.mixins,
    inner .entries "typedefs" typedefTrees g.typedefs,
    inner .entries "namespaces" namespaceTrees g.namespaces,
    g.extra.trees .entries].flatten

/-- The tree of a graph. -/
def Graph.tree (g : Graph) : Tree :=
  .node ⟨.entries, .record⟩ g.trees

/-! ## Objects -/

/-- No key of an object repeats. -/
def Content.isMap : Content → Bool
  | .json (.obj fields) => decide (fields.map (·.1)).Nodup
  | _ => true

/-- The objects in the extra fields of a graph are maps, at any depth. -/
def Graph.HasMaps (g : Graph) : Prop :=
  ∀ path site, g.tree.Leads path site → site.content.isMap = true

mutual

/-- Whether every object in a tree is a map. -/
def Tree.hasMaps : Tree → Bool
  | .node here branches => here.content.isMap && Tree.allHaveMaps branches

def Tree.allHaveMaps : List (String × Tree) → Bool
  | [] => true
  | (_, tree) :: rest => tree.hasMaps && Tree.allHaveMaps rest

end

mutual

theorem Tree.hasMaps_iff : ∀ tree : Tree, tree.hasMaps = true ↔
    ∀ path site, tree.Leads path site → site.content.isMap = true
  | .node here branches => by
    rw [hasMaps, Bool.and_eq_true, Tree.allHaveMaps_iff branches]
    constructor
    · rintro ⟨hhere, hbelow⟩ (_ | ⟨segment, path⟩) site hleads
      · cases hleads
        exact hhere
      · obtain ⟨tree, hmem, hleads⟩ := hleads
        exact hbelow segment tree hmem path site hleads
    · intro h
      exact ⟨h [] here rfl, fun segment tree hmem path site hleads =>
        h (segment :: path) site ⟨tree, hmem, hleads⟩⟩

theorem Tree.allHaveMaps_iff : ∀ branches : List (String × Tree),
    Tree.allHaveMaps branches = true ↔ ∀ segment tree, (segment, tree) ∈ branches →
      ∀ path site, tree.Leads path site → site.content.isMap = true
  | [] => by simp [allHaveMaps]
  | (key, first) :: rest => by
    rw [allHaveMaps, Bool.and_eq_true, Tree.hasMaps_iff first, Tree.allHaveMaps_iff rest]
    constructor
    · rintro ⟨hfirst, hrest⟩ segment tree hmem
      rcases List.mem_cons.1 hmem with hmem | hmem
      · cases hmem
        exact hfirst
      · exact hrest segment tree hmem
    · intro h
      exact ⟨h key first (List.mem_cons_self ..),
        fun segment tree hmem => h segment tree (List.mem_cons_of_mem _ hmem)⟩

end

instance (g : Graph) : Decidable g.HasMaps :=
  decidable_of_iff (g.tree.hasMaps = true) g.tree.hasMaps_iff

end IdlDecls
