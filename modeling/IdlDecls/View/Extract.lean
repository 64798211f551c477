import IdlDecls.View.References
import IdlDecls.View.Visible

/-!
# The view of a context

`Graph.view` gives the part of a graph that one execution context sees. Interfaces and namespaces are
selected by exposure or because they are known; every other definition is kept when something
selected reaches it by references. A collection in which nothing is kept is left out.
-/

namespace IdlDecls

/-- Why there is no view. -/
inductive ViewError where
  /-- The name of the context is blank. -/
  | emptyContext
deriving DecidableEq, Repr

/-- The message for a missing view. -/
def ViewError.message : ViewError → String
  | .emptyContext => "Execution context name is empty"

/-- A collection, left out when empty. -/
def Keyed.unlessEmpty {α : Type} (m : Keyed α) : Option (Keyed α) :=
  if m.isEmpty then none else some m

/-- A list, left out when empty. -/
def listUnlessEmpty {α : Type} (l : List α) : Option (List α) :=
  if l.isEmpty then none else some l

namespace Graph

/-! ## Selected by exposure -/

/-- An interface as a context sees it, if it is exposed there or known (the interfaces of
`exposed_types`). A known interface that is not exposed keeps the members without an exposure of
their own. -/
def selectInterface? (context : String) (known : List String) (i : Interface) :
    Option Interface :=
  let exposed := isExposedIn i.exposed context
  if exposed || known.contains i.name then some (i.scopedTo context exposed) else none

/-- A namespace as a context sees it, if it is exposed there or known (the namespaces of
`exposed_types`). -/
def selectNamespace? (context : String) (known : List String) (n : Interface) :
    Option Interface :=
  if isExposedIn n.exposed context || known.contains n.name then some (n.scopedTo context true)
  else none

/-- The selected interfaces under their names (`exposed_types`). -/
def viewInterfaces (g : Graph) (context : String) (known : List String) : Keyed Interface :=
  .ofList ((valuesOf g.interfaces).filterMap fun i =>
    (selectInterface? context known i).map fun i => (i.name, i))

/-- The selected namespaces in their order (`exposed_types`). -/
def viewNamespaces (g : Graph) (context : String) (known : List String) : List Interface :=
  (g.namespaces.getD []).filterMap (selectNamespace? context known)

/-- All mixins under their names, without the members that a context does not see (`exposed_types`). -/
def scopedMixins (g : Graph) (context : String) : Keyed Interface :=
  .ofList ((valuesOf g.mixins).map fun m => (m.name, m.scopedTo context true))

/-! ## Selected by reference -/

/-- What the definitions that a context may see refer to (the `TypeGraph` of `exposed_types`). -/
def links (g : Graph) (context : String) (known : List String) : Links :=
  (g.viewInterfaces context known).values.map (·.link) ++
    (g.viewNamespaces context known).map (·.link) ++
    (g.scopedMixins context).values.map (·.link) ++
    (valuesOf g.callbackInterfaces).map (·.link) ++
    (valuesOf g.dictionaries).map (·.link) ++
    (g.typedefs.getD []).map (·.link) ++
    (valuesOf g.callbackFunctions).map (·.link)

/-- The names that keep other definitions in the view (`exposed_types`). -/
def roots (g : Graph) (context : String) (known : List String) : List String :=
  (g.viewInterfaces context known).values.map (·.name) ++
    (g.viewNamespaces context known).map (·.name) ++ known

/-- The names that a context reaches (`reachable`). -/
def reachedNames (g : Graph) (context : String) (known : List String) : List String :=
  (g.links context known).reach (g.roots context known)

/-- The entries of a collection with reached keys (`keep`). -/
def keepReached {α : Type} (reached : List String) (entries : Option (Keyed α)) :
    Option (Keyed α) :=
  entries.bind fun entries => (entries.filter fun key _ => reached.contains key).unlessEmpty

/-! ## The view -/

/-- The part of a graph that a context sees (`exposed_types`). -/
def view (g : Graph) (context : String) (known : List String) : Except ViewError Graph :=
  if Text.blank context then .error .emptyContext
  else
    let reached := g.reachedNames context known
    .ok {
      interfaces := (g.viewInterfaces context known).unlessEmpty
      namespaces := listUnlessEmpty (g.viewNamespaces context known)
      mixins := keepReached reached (some (g.scopedMixins context))
      callbackInterfaces := keepReached reached g.callbackInterfaces
      dictionaries := keepReached reached g.dictionaries
      enums := keepReached reached g.enums
      callbackFunctions := keepReached reached g.callbackFunctions
      typedefs := g.typedefs.bind fun typedefs =>
        listUnlessEmpty (typedefs.filter fun t => reached.contains t.name)
      extra := g.extra }

end Graph

end IdlDecls
