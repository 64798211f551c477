import IdlDecls.Integration.Fragment

/-!
# Comments for fragments

A comment map gives texts to the names of definitions, and to `definition.member` for their members.
Applying it to a fragment fills the comments that are absent in its interfaces, mixins and
dictionaries, complete and partial; a comment that is there stays.
-/

namespace IdlDecls

/-- Texts for names and for `definition.member`. -/
abbrev CommentMap := Keyed String

namespace CommentMap

/-- A comment, or the map's text for a name where there is none (`fill`). -/
def fill (comments : CommentMap) (name : String) (comment : Option String) : Option String :=
  comment.or (comments.get? name)

/-- A member's comment, or the map's text for it where there is none. -/
def fillMember (comments : CommentMap) (owner name : String) (comment : Option String) :
    Option String :=
  comments.fill (owner ++ "." ++ name) comment

end CommentMap

/-- An interface with its comments filled (`comment_interface`). -/
def Interface.fillComments (comments : CommentMap) (i : Interface) : Interface :=
  { i with
    comment := comments.fill i.name i.comment
    methods := i.methods.map
      (·.map fun _ m => { m with comment := comments.fillMember i.name m.name m.comment })
    properties := i.properties.map
      (·.map fun _ p => { p with comment := comments.fillMember i.name p.name p.comment })
    constants := i.constants.map
      (·.map fun _ c => { c with comment := comments.fillMember i.name c.name c.comment }) }

/-- A dictionary with its comments filled (in `apply_comments`). -/
def Dictionary.fillComments (comments : CommentMap) (d : Dictionary) : Dictionary :=
  { d with
    comment := comments.fill d.name d.comment
    members := d.members.map
      (·.map fun _ m => { m with comment := comments.fillMember d.name m.name m.comment }) }

/-- A fragment with its comments filled (`apply_comments`). Callback interfaces and namespaces take
no comments from the map. -/
def Fragment.fillComments (comments : CommentMap) (f : Fragment) : Fragment :=
  { f with
    definitions := { f.definitions with
      interfaces := f.definitions.interfaces.map (·.map fun _ i => i.fillComments comments)
      mixins := f.definitions.mixins.map (·.map fun _ i => i.fillComments comments)
      dictionaries := f.definitions.dictionaries.map (·.map fun _ d => d.fillComments comments) }
    partialInterfaces := f.partialInterfaces.map (·.fillComments comments)
    partialMixins := f.partialMixins.map (·.fillComments comments)
    partialDictionaries := f.partialDictionaries.map (·.fillComments comments) }

end IdlDecls
