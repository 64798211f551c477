import IdlDecls.Model.Graph

/-!
# Names from keys

Data files may leave out the name of an entry that stands under a key; the key then is its name. A
name that is given stays, also where it differs from the key.
-/

namespace IdlDecls

/-- A name, or the key in place of the empty one (`fill`). -/
def nameOr (key name : String) : String :=
  if name = "" then key else name

/-- Fills the names of the constants, methods and properties (`assign_member_names`). -/
def Interface.fillMemberNames (i : Interface) : Interface :=
  { i with
    constants := i.constants.map (·.map fun key c => { c with name := nameOr key c.name })
    methods := i.methods.map (·.map fun key m => { m with name := nameOr key m.name })
    properties := i.properties.map (·.map fun key p => { p with name := nameOr key p.name }) }

/-- Fills the name of the interface from its key and those of its members from theirs
(`assign_interface_names`). -/
def Interface.fillNames (key : String) (i : Interface) : Interface :=
  { i.fillMemberNames with name := nameOr key i.name }

/-- Fills the names of the members (`assign_member_names`). -/
def Dictionary.fillMemberNames (d : Dictionary) : Dictionary :=
  { d with members := d.members.map (·.map fun key m => { m with name := nameOr key m.name }) }

/-- Fills the name of the dictionary from its key and those of its members from theirs. -/
def Dictionary.fillNames (key : String) (d : Dictionary) : Dictionary :=
  { d.fillMemberNames with name := nameOr key d.name }

/-- Fills every name that stands under a key (`assign_names`). Namespaces and type definitions stand
under none; a namespace's members do. -/
def Graph.fillNames (g : Graph) : Graph :=
  { g with
    callbackFunctions := g.callbackFunctions.map
      (·.map fun key f => { f with name := nameOr key f.name })
    callbackInterfaces := g.callbackInterfaces.map (·.map Interface.fillNames)
    dictionaries := g.dictionaries.map (·.map Dictionary.fillNames)
    enums := g.enums.map (·.map fun key e => { e with name := nameOr key e.name })
    interfaces := g.interfaces.map (·.map Interface.fillNames)
    mixins := g.mixins.map (·.map Interface.fillNames)
    namespaces := g.namespaces.map (·.map Interface.fillMemberNames) }

/-- Filling twice is filling once. -/
theorem nameOr_nameOr (key name : String) : nameOr key (nameOr key name) = nameOr key name := by
  unfold nameOr
  split <;> simp_all

end IdlDecls
