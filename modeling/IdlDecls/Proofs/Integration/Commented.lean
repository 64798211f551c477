import IdlDecls.Integration.Comments
import IdlDecls.Proofs.Keyed.Joined

/-!
# Comments only fill gaps

A comment map is looked up by the names that the definitions and members of a fragment have in
themselves, not by the keys under which they stand. Where a definition or a member that takes comments
has none, it gets the text of the map for its label; a comment that is there stays, and nothing else of
the fragment changes (`Fragment.Commented`). These demands leave one fragment, which is what filling
gives (`Fragment.fillComments_fills_gaps`). Two maps that are applied one after the other act as one in
which the first comes before the second (`Fragment.fillComments_fillComments`), so applying a map again
changes nothing.
-/

namespace IdlDecls

/-! ## Single comments -/

namespace CommentMap

/-- What becomes of a comment. One that is there stays; one that is not is the map's text for the label,
and stays absent if the map has none. -/
structure Fills (comments : CommentMap) (label : String) (old new : Option String) : Prop where
  kept : ∀ text, old = some text → new = some text
  filled : old = none → new = comments.get? label

variable {comments : CommentMap}

theorem fills_iff {label : String} {old new : Option String} :
    comments.Fills label old new ↔ new = comments.fill label old := by
  cases old with
  | none =>
    rw [fill, Option.none_or]
    exact ⟨fun h => h.filled rfl, fun h => ⟨nofun, fun _ => h⟩⟩
  | some text =>
    rw [fill, Option.some_or]
    refine ⟨fun h => h.kept text rfl, fun h => ⟨?_, nofun⟩⟩
    rintro _ ⟨⟩
    exact h

/-- The map `both` has the texts of `first`, and those of `second` for the labels that are left. -/
def Layered (first second both : CommentMap) : Prop :=
  ∀ label, both.get? label = (first.get? label).or (second.get? label)

theorem layered_self (comments : CommentMap) : Layered comments comments comments :=
  fun _ => Option.or_self.symm

theorem fill_fill {first second both : CommentMap} (h : Layered first second both) (label : String)
    (comment : Option String) : second.fill label (first.fill label comment) =
      both.fill label comment := by
  rw [fill, fill, fill, Option.or_assoc, h label]

theorem fillMember_fillMember {first second both : CommentMap} (h : Layered first second both)
    (owner name : String) (comment : Option String) :
    second.fillMember owner name (first.fillMember owner name comment) =
      both.fillMember owner name comment :=
  fill_fill h (owner ++ "." ++ name) comment

end CommentMap

/-! ## Definitions -/

/-- The interface `j` is `i` with its gaps filled: its own comment by the text for its name, and those of
its methods, properties and constants by the texts for its name and theirs. -/
structure Interface.Commented (comments : CommentMap) (i j : Interface) : Prop where
  others : j = { i with
    comment := j.comment
    methods := j.methods
    properties := j.properties
    constants := j.constants }
  comment : comments.Fills i.name i.comment j.comment
  methods : AlikeEntries (fun m n => n = { m with comment := n.comment } ∧
    comments.Fills (i.name ++ "." ++ m.name) m.comment n.comment) i.methods j.methods
  properties : AlikeEntries (fun p q => q = { p with comment := q.comment } ∧
    comments.Fills (i.name ++ "." ++ p.name) p.comment q.comment) i.properties j.properties
  constants : AlikeEntries (fun c d => d = { c with comment := d.comment } ∧
    comments.Fills (i.name ++ "." ++ c.name) c.comment d.comment) i.constants j.constants

/-- The dictionary `e` is `d` with its gaps filled: its own comment by the text for its name, and those of
its members by the texts for its name and theirs. -/
structure Dictionary.Commented (comments : CommentMap) (d e : Dictionary) : Prop where
  others : e = { d with comment := e.comment, members := e.members }
  comment : comments.Fills d.name d.comment e.comment
  members : AlikeEntries (fun m n => n = { m with comment := n.comment } ∧
    comments.Fills (d.name ++ "." ++ m.name) m.comment n.comment) d.members e.members

section Definitions

variable (comments : CommentMap)

/-- Members that differ in their comments only; `get` reads the comment of a member and `set` puts
another in its place. -/
theorem CommentMap.members_iff {α : Type} (name : α → String) (get : α → Option String)
    (set : α → Option String → α) (hget : ∀ m comment, get (set m comment) = comment)
    (owner : String) (c d : Option (Keyed α)) :
    AlikeEntries (fun m n => n = set m (get n) ∧
        comments.Fills (owner ++ "." ++ name m) (get m) (get n)) c d ↔
      d = c.map (·.map fun _ m => set m (comments.fillMember owner (name m) (get m))) := by
  refine alikeEntries_iff_eq_map fun m n => ?_
  rw [fills_iff, ← fillMember]
  constructor
  · rintro ⟨hothers, hcomment⟩
    rw [hothers, hcomment]
  · rintro rfl
    rw [hget]
    exact ⟨rfl, rfl⟩

theorem Interface.commented_iff {i j : Interface} :
    i.Commented comments j ↔ j = i.fillComments comments := by
  have hmethods := comments.members_iff Method.name Method.comment
    (fun m comment => { m with comment }) (fun _ _ => rfl) i.name i.methods j.methods
  have hproperties := comments.members_iff Property.name Property.comment
    (fun p comment => { p with comment }) (fun _ _ => rfl) i.name i.properties j.properties
  have hconstants := comments.members_iff Constant.name Constant.comment
    (fun c comment => { c with comment }) (fun _ _ => rfl) i.name i.constants j.constants
  constructor
  · rintro ⟨hothers, hcomment, hm, hp, hc⟩
    rw [CommentMap.fills_iff] at hcomment
    rw [hmethods] at hm
    rw [hproperties] at hp
    rw [hconstants] at hc
    rw [hothers, hcomment, hm, hp, hc, fillComments]
  · rintro rfl
    exact ⟨rfl, CommentMap.fills_iff.2 rfl, hmethods.2 rfl, hproperties.2 rfl, hconstants.2 rfl⟩

theorem Dictionary.commented_iff {d e : Dictionary} :
    d.Commented comments e ↔ e = d.fillComments comments := by
  have hmembers := comments.members_iff Member.name Member.comment
    (fun m comment => { m with comment }) (fun _ _ => rfl) d.name d.members e.members
  constructor
  · rintro ⟨hothers, hcomment, hm⟩
    rw [CommentMap.fills_iff] at hcomment
    rw [hmembers] at hm
    rw [hothers, hcomment, hm, fillComments]
  · rintro rfl
    exact ⟨rfl, CommentMap.fills_iff.2 rfl, hmembers.2 rfl⟩

end Definitions

/-! ## Two maps -/

section Layers

variable {first second both : CommentMap} (h : CommentMap.Layered first second both)
include h

theorem Interface.fillComments_fillComments (i : Interface) :
    (i.fillComments first).fillComments second = i.fillComments both := by
  simp only [fillComments, map_entries_map_entries, CommentMap.fill_fill h,
    CommentMap.fillMember_fillMember h]

theorem Dictionary.fillComments_fillComments (d : Dictionary) :
    (d.fillComments first).fillComments second = d.fillComments both := by
  simp only [fillComments, map_entries_map_entries, CommentMap.fill_fill h,
    CommentMap.fillMember_fillMember h]

/-- **Two maps act as one** that has the texts of both, those of the first before those of the
second. -/
theorem Fragment.fillComments_fillComments (f : Fragment) :
    (f.fillComments first).fillComments second = f.fillComments both := by
  simp only [fillComments, map_entries_map_entries, List.map_map, Function.comp_def,
    Interface.fillComments_fillComments h, Dictionary.fillComments_fillComments h]

end Layers

/-! ## Fragments -/

/-- The fragment `g` is `f` with the gaps of its interfaces, mixins and dictionaries filled, complete and
partial; the other definitions and the rest of the fragment are those of `f`. -/
structure Fragment.Commented (comments : CommentMap) (f g : Fragment) : Prop where
  others : g = { f with
    definitions := { f.definitions with
      interfaces := g.definitions.interfaces
      mixins := g.definitions.mixins
      dictionaries := g.definitions.dictionaries }
    partialInterfaces := g.partialInterfaces
    partialMixins := g.partialMixins
    partialDictionaries := g.partialDictionaries }
  interfaces : AlikeEntries (Interface.Commented comments)
    f.definitions.interfaces g.definitions.interfaces
  mixins : AlikeEntries (Interface.Commented comments) f.definitions.mixins g.definitions.mixins
  dictionaries : AlikeEntries (Dictionary.Commented comments)
    f.definitions.dictionaries g.definitions.dictionaries
  partialInterfaces : List.Forall₂ (Interface.Commented comments)
    f.partialInterfaces g.partialInterfaces
  partialMixins : List.Forall₂ (Interface.Commented comments) f.partialMixins g.partialMixins
  partialDictionaries : List.Forall₂ (Dictionary.Commented comments)
    f.partialDictionaries g.partialDictionaries

theorem Fragment.commented_iff (comments : CommentMap) {f g : Fragment} :
    f.Commented comments g ↔ g = f.fillComments comments := by
  have hinterface (i j : Interface) := Interface.commented_iff comments (i := i) (j := j)
  have hdictionary (d e : Dictionary) := Dictionary.commented_iff comments (d := d) (e := e)
  constructor
  · rintro ⟨hothers, hinterfaces, hmixins, hdictionaries, hpartials, hpartialMixins, hpartialDictionaries⟩
    rw [alikeEntries_iff_eq_map hinterface] at hinterfaces hmixins
    rw [alikeEntries_iff_eq_map hdictionary] at hdictionaries
    rw [forall₂_iff_eq_map hinterface] at hpartials hpartialMixins
    rw [forall₂_iff_eq_map hdictionary] at hpartialDictionaries
    rw [hothers, hinterfaces, hmixins, hdictionaries, hpartials, hpartialMixins,
      hpartialDictionaries, fillComments]
  · rintro rfl
    exact
      { others := rfl
        interfaces := (alikeEntries_iff_eq_map hinterface).2 rfl
        mixins := (alikeEntries_iff_eq_map hinterface).2 rfl
        dictionaries := (alikeEntries_iff_eq_map hdictionary).2 rfl
        partialInterfaces := (forall₂_iff_eq_map hinterface).2 rfl
        partialMixins := (forall₂_iff_eq_map hinterface).2 rfl
        partialDictionaries := (forall₂_iff_eq_map hdictionary).2 rfl }

/-! ## No comments -/

section Empty

theorem CommentMap.fill_empty (label : String) (comment : Option String) :
    fill ∅ label comment = comment :=
  Option.or_none

theorem CommentMap.fillMember_empty (owner name : String) (comment : Option String) :
    fillMember ∅ owner name comment = comment :=
  Option.or_none

theorem Interface.fillComments_empty (i : Interface) : i.fillComments ∅ = i := by
  simp only [fillComments, CommentMap.fill_empty, CommentMap.fillMember_empty, map_entries_self]

theorem Dictionary.fillComments_empty (d : Dictionary) : d.fillComments ∅ = d := by
  simp only [fillComments, CommentMap.fill_empty, CommentMap.fillMember_empty, map_entries_self]

/-- A map without texts changes nothing, so it may be left aside. -/
theorem Fragment.fillComments_empty (f : Fragment) : f.fillComments ∅ = f := by
  simp only [fillComments, Interface.fillComments_empty, Dictionary.fillComments_empty,
    map_entries_self, List.map_id']

end Empty

/-- **Comments only fill gaps.** Among all fragments, the one that filling gives is the one in which every
interface, mixin and dictionary and each of their members has the comment that it had, or the map's text
for its label where it had none, and everything else is as it was. Filling again changes nothing. -/
theorem Fragment.fillComments_fills_gaps (comments : CommentMap) (f : Fragment) :
    (∀ g, g = f.fillComments comments ↔ f.Commented comments g) ∧
      (f.fillComments comments).fillComments comments = f.fillComments comments :=
  ⟨fun _ => (commented_iff comments).symm,
    fillComments_fillComments (CommentMap.layered_self comments) f⟩

/-- An interface that has a comment of its own keeps it, and its method, which has none, is documented by
the name that it has in itself. -/
example :
    let blob (share : Option String) : Interface :=
      { name := "Blob", comment := some "kept"
        methods := some (.ofList [("share", { name := "slice", comment := share })]) }
    ({ partialInterfaces := [blob none] } : Fragment).fillComments
        (.ofList [("Blob", "replaced"), ("Blob.slice", "Returns a new Blob"), ("Blob.share", "unused")]) =
      { partialInterfaces := [blob (some "Returns a new Blob")] } := by
  decide +kernel

end IdlDecls
