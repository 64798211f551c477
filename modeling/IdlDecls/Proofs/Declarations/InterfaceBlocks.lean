import IdlDecls.Proofs.Declarations.Files
import IdlDecls.Proofs.Declarations.MemberLines

/-!
# The two blocks of an interface

An interface has a block for its shape and one for its object. The shape holds the constants and what is
not static; the object holds its prototype, the constructors, the constants again and what is static. The
two are made apart, with opposite filters, and still every line that an interface declares stands where it
belongs, once and in order (`Interface.enumerates_blockLines`). In a file the blocks of the interfaces stand
one pair after another, and nothing else is there because of them (`emit_interface_members`).
-/

namespace IdlDecls

open Declaration

/-! ## What an interface declares -/

/-- The blocks of an interface. -/
inductive InterfaceBlock where
  /-- What its instances have. -/
  | shape
  /-- What stands on the interface object. -/
  | object
deriving DecidableEq, Repr

/-- The block of a member that is static or not. -/
def InterfaceBlock.ofStatic (isStatic : Option Bool) : InterfaceBlock :=
  if isStatic.getD false then .object else .shape

/-- The lines that an interface declares in its blocks. -/
inductive Interface.Declares (i : Interface) : InterfaceBlock → MemberLine → Prop where
  /-- A construct signature for each overload of the constructor. -/
  | constructor {c : Constructor} {n : Nat} {s : Signature} :
      i.constructor = some c → c.signatures[n]? = some s →
      i.Declares .object
        { slot := .constructor n, line := "new(" ++ paramsText s.params ++ "): " ++ i.name }
  /-- A constant in the shape. -/
  | constant {key : String} {c : Constant} :
      i.constant? key = some c →
      i.Declares .shape
        { slot := .constant key
          doc := docOf c.comment false
          line := "readonly " ++ c.name ++ ": " ++ c.type.text }
  /-- The constant again in the object. -/
  | objectConstant {key : String} {c : Constant} :
      i.constant? key = some c →
      i.Declares .object
        { slot := .constant key, line := "readonly " ++ c.name ++ ": " ++ c.type.text }
  /-- A property. -/
  | property {key : String} {p : Property} :
      i.property? key = some p →
      i.Declares (.ofStatic p.isStatic)
        { slot := .property key
          doc := docOf p.comment (p.deprecated.getD false)
          line := (if p.readOnly.getD false then "readonly " else "") ++ p.name ++ ": " ++
            p.type.text }
  /-- An overload of a method. -/
  | method {key : String} {m : Method} {n : Nat} {s : Signature} :
      i.method? key = some m → m.signatures[n]? = some s →
      i.Declares (.ofStatic m.isStatic)
        { slot := .method key n
          doc := if n = 0 then docOf m.comment (m.deprecated.getD false) else []
          line := m.name ++ s.text }
  /-- A method without overloads takes nothing and returns nothing. -/
  | void {key : String} {m : Method} :
      i.method? key = some m → m.signatures = [] →
      i.Declares (.ofStatic m.isStatic)
        { slot := .method key 0
          doc := docOf m.comment (m.deprecated.getD false)
          line := m.name ++ "(): void" }

/-! ## The lines of the blocks -/

/-- A constant in a block: its documentation stands in the shape only. -/
def InterfaceBlock.constantItem : InterfaceBlock → Constant → Item
  | .shape, c => c.item
  | .object, c => ⟨[], [c.line]⟩

/-- The overloads of the constructor as one item. -/
def Interface.constructorItem (i : Interface) : Item :=
  ⟨[], (i.constructor.toList.flatMap (·.signatures)).map fun s =>
    "new(" ++ paramsText s.params ++ "): " ++ i.name⟩

/-- Whether a block holds what is static. -/
def InterfaceBlock.isStatic : InterfaceBlock → Bool
  | .shape => false
  | .object => true

/-- The members of a collection that stand in a block. -/
def InterfaceBlock.select {α : Type} (mark : α → Option Bool) (c : Option (Keyed α))
    (block : InterfaceBlock) : List (String × α) :=
  (entriesOf c).filter fun e => (mark e.2).getD false = block.isStatic

/-- The lines of a block. -/
def Interface.blockLines (i : Interface) (block : InterfaceBlock) : List MemberLine :=
  (match block with
    | .shape => []
    | .object => itemLines .constructor i.constructorItem) ++
  memberLines (fun key _ => .constant key) block.constantItem (entriesOf i.constants) ++
  memberLines (fun key _ => .property key) Property.item (block.select Property.isStatic i.properties) ++
  memberLines .method Method.item (block.select Method.isStatic i.methods)

section Blocks

variable {i : Interface} {block : InterfaceBlock} {l : MemberLine}

theorem InterfaceBlock.ofStatic_eq_iff {mark : Option Bool} :
    .ofStatic mark = block ↔ mark.getD false = block.isStatic := by
  rw [ofStatic]
  cases block <;> cases mark.getD false <;> simp [isStatic]

theorem InterfaceBlock.mem_select {α : Type} {mark : α → Option Bool} {c : Option (Keyed α)}
    {key : String} {value : α} : (key, value) ∈ block.select mark c ↔
      lookup? c key = some value ∧ .ofStatic (mark value) = block := by
  rw [select, List.mem_filter, mem_entriesOf, decide_eq_true_iff, ofStatic_eq_iff]

theorem InterfaceBlock.ascending_select {α : Type} {mark : α → Option Bool}
    {c : Option (Keyed α)} : Entries.Ascending (block.select mark c) :=
  ascending_entriesOf.filter _

/-- The values of the selected members are the selected values. -/
theorem InterfaceBlock.map_select {α : Type} (mark : α → Option Bool) (c : Option (Keyed α)) :
    (block.select mark c).map (·.2) =
      (valuesOf c).filter fun value => (mark value).getD false = block.isStatic := by
  rw [valuesOf_eq_map_entriesOf, List.filter_map]
  rfl

theorem Method.isItemLine_iff {m : Method} {key : String} :
    IsItemLine (.method key) m.item l ↔
      (∃ n s, m.signatures[n]? = some s ∧ l =
        { slot := .method key n
          doc := if n = 0 then docOf m.comment (m.deprecated.getD false) else []
          line := m.name ++ s.text }) ∨
      m.signatures = [] ∧ l =
        { slot := .method key 0
          doc := docOf m.comment (m.deprecated.getD false)
          line := m.name ++ "(): void" } := by
  by_cases hempty : m.signatures = []
  · simp [Method.item, hempty, isItemLine_singleton]
  · simp [Method.item, IsItemLine, hempty]

theorem Interface.isItemLine_constructorItem :
    IsItemLine .constructor i.constructorItem l ↔ ∃ c n s, i.constructor = some c ∧
      c.signatures[n]? = some s ∧ l =
        { slot := .constructor n, line := "new(" ++ paramsText s.params ++ "): " ++ i.name } := by
  cases hc : i.constructor with
  | none => simp [IsItemLine, Interface.constructorItem, hc]
  | some c => simp [IsItemLine, Interface.constructorItem, hc]

/-- **What a block declares**, one kind of member after another. -/
theorem Interface.declares_iff : i.Declares block l ↔
    ((((block = .object ∧ IsItemLine .constructor i.constructorItem l) ∨
      ∃ key c, (key, c) ∈ entriesOf i.constants ∧
        IsItemLine (fun _ => .constant key) (block.constantItem c) l) ∨
      ∃ key p, (key, p) ∈ block.select Property.isStatic i.properties ∧
        IsItemLine (fun _ => .property key) p.item l) ∨
      ∃ key m, (key, m) ∈ block.select Method.isStatic i.methods ∧
        IsItemLine (.method key) m.item l) := by
  constructor
  · intro h
    cases h with
    | constructor hc hs =>
      exact .inl (.inl (.inl ⟨rfl, Interface.isItemLine_constructorItem.2 ⟨_, _, _, hc, hs, rfl⟩⟩))
    | constant hc =>
      exact .inl (.inl (.inr ⟨_, _, mem_entriesOf.2 hc, isItemLine_singleton.2 rfl⟩))
    | objectConstant hc =>
      exact .inl (.inl (.inr ⟨_, _, mem_entriesOf.2 hc, isItemLine_singleton.2 rfl⟩))
    | property hp =>
      exact .inl (.inr ⟨_, _, InterfaceBlock.mem_select.2 ⟨hp, rfl⟩, isItemLine_singleton.2 rfl⟩)
    | method hm hs =>
      exact .inr ⟨_, _, InterfaceBlock.mem_select.2 ⟨hm, rfl⟩,
        Method.isItemLine_iff.2 (.inl ⟨_, _, hs, rfl⟩)⟩
    | void hm hempty =>
      exact .inr ⟨_, _, InterfaceBlock.mem_select.2 ⟨hm, rfl⟩,
        Method.isItemLine_iff.2 (.inr ⟨hempty, rfl⟩)⟩
  · rintro (((⟨rfl, hl⟩ | ⟨key, c, hc, hl⟩) | ⟨key, p, hp, hl⟩) | ⟨key, m, hm, hl⟩)
    · obtain ⟨c, n, s, hc, hs, rfl⟩ := Interface.isItemLine_constructorItem.1 hl
      exact .constructor hc hs
    · cases block with
      | shape =>
        rw [isItemLine_singleton.1 hl]
        exact .constant (mem_entriesOf.1 hc)
      | object =>
        rw [isItemLine_singleton.1 hl]
        exact .objectConstant (mem_entriesOf.1 hc)
    · obtain ⟨hlookup, rfl⟩ := InterfaceBlock.mem_select.1 hp
      rw [isItemLine_singleton.1 hl]
      exact .property hlookup
    · obtain ⟨hlookup, rfl⟩ := InterfaceBlock.mem_select.1 hm
      obtain ⟨n, s, hs, rfl⟩ | ⟨hempty, rfl⟩ := Method.isItemLine_iff.1 hl
      · exact .method hlookup hs
      · exact .void hlookup hempty

/-- **The lines of a block are what it declares.** -/
theorem Interface.enumerates_blockLines (i : Interface) (block : InterfaceBlock) :
    Enumerates (i.Declares block) (i.blockLines block) := by
  have hconstructors : Enumerates
      (fun l => block = .object ∧ IsItemLine .constructor i.constructorItem l)
      (match block with
        | .shape => []
        | .object => itemLines .constructor i.constructorItem) := by
    cases block with
    | shape => exact Enumerates.nil.congr fun l => by simp
    | object =>
      refine (enumerates_itemLines fun m n hlt _ => ?_).congr fun l => by simp
      exact Or.inr ⟨rfl, Or.inr ⟨rfl, hlt⟩⟩
  have hconstants : Enumerates
      (fun l => ∃ key c, (key, c) ∈ entriesOf i.constants ∧
        IsItemLine (fun _ => .constant key) (block.constantItem c) l)
      (memberLines (fun key _ => .constant key) block.constantItem (entriesOf i.constants)) :=
    enumerates_memberLines_of_single ascending_entriesOf (fun _ _ => ⟨rfl, rfl⟩) fun c => by
      cases block <;> rfl
  have hproperties : Enumerates
      (fun l => ∃ key p, (key, p) ∈ block.select Property.isStatic i.properties ∧
        IsItemLine (fun _ => .property key) p.item l)
      (memberLines (fun key _ => .property key) Property.item
        (block.select Property.isStatic i.properties)) :=
    enumerates_memberLines_of_single InterfaceBlock.ascending_select (fun _ _ => ⟨rfl, rfl⟩)
      fun _ => rfl
  have hmethods : Enumerates
      (fun l => ∃ key m, (key, m) ∈ block.select Method.isStatic i.methods ∧
        IsItemLine (.method key) m.item l)
      (memberLines .method Method.item (block.select Method.isStatic i.methods)) :=
    enumerates_memberLines InterfaceBlock.ascending_select (fun _ _ => ⟨rfl, rfl⟩)
      fun _ _ _ _ hlt _ => Or.inr ⟨rfl, Or.inr ⟨rfl, hlt⟩⟩
  refine (((hconstructors.append hconstants ?_).append hproperties ?_).append hmethods ?_).congr
    fun l => Interface.declares_iff.symm
  · rintro _ _ ⟨-, _, _, -, rfl⟩ ⟨_, _, -, _, _, -, rfl⟩
    simp [MemberSlot.kind]
  · rintro _ _ (⟨-, _, _, -, rfl⟩ | ⟨_, _, -, _, _, -, rfl⟩) ⟨_, _, -, _, _, -, rfl⟩ <;>
      simp [MemberSlot.kind]
  · rintro _ _ ((⟨-, _, _, -, rfl⟩ | ⟨_, _, -, _, _, -, rfl⟩) | ⟨_, _, -, _, _, -, rfl⟩)
      ⟨_, _, -, _, _, -, rfl⟩ <;> simp [MemberSlot.kind]

/-! ## The texts of the blocks -/

theorem Interface.join_constants (i : Interface) (block : InterfaceBlock) :
    String.join (((valuesOf i.constants).map block.constantItem).map itemText) =
      String.join ((memberLines (fun key _ => .constant key) block.constantItem
        (entriesOf i.constants)).map MemberLine.text) := by
  rw [valuesOf_eq_map_entriesOf]
  exact join_map_itemText fun c => Or.inl (by cases block <;> exact List.cons_ne_nil _ _)

theorem Interface.join_properties (i : Interface) (block : InterfaceBlock) :
    String.join ((i.propertyItems block.isStatic).map itemText) =
      String.join ((memberLines (fun key _ => .property key) Property.item
        (block.select Property.isStatic i.properties)).map MemberLine.text) := by
  rw [Interface.propertyItems, ← InterfaceBlock.map_select]
  exact join_map_itemText fun p => Or.inl (List.cons_ne_nil _ _)

theorem Interface.join_methods (i : Interface) (block : InterfaceBlock) :
    String.join ((i.methodItems block.isStatic).map itemText) =
      String.join ((memberLines .method Method.item
        (block.select Method.isStatic i.methods)).map MemberLine.text) := by
  rw [Interface.methodItems, ← InterfaceBlock.map_select]
  refine join_map_itemText fun m => Or.inl ?_
  by_cases hempty : m.signatures = [] <;> simp [Method.item, hempty]

theorem Interface.join_constructors (i : Interface) :
    String.join (i.constructorItems.map itemText) =
      String.join ((itemLines .constructor i.constructorItem).map MemberLine.text) := by
  rw [← itemText_eq_join _ (Or.inr rfl)]
  simp [Interface.constructorItem, Interface.constructorItems, itemText, docText, Function.comp_def]

/-- **The shape of an interface** is its heading and the lines of the shape. -/
theorem Interface.text_declaration (i : Interface) : i.declaration.text =
    docText "" (docOf i.comment i.isDeprecated) ++ i.heading ++ " \x7b\n" ++
      String.join ((i.blockLines .shape).map MemberLine.text) ++ "\x7d\n\n" := by
  have hproperties := i.join_properties .shape
  have hmethods := i.join_methods .shape
  rw [InterfaceBlock.isStatic] at hproperties hmethods
  rw [Interface.blockLines, List.nil_append, List.map_append, List.map_append, String.join_append,
    String.join_append, ← i.join_constants .shape, ← hproperties, ← hmethods]
  simp [Interface.declaration, Declaration.text, InterfaceBlock.constantItem, Function.comp_def,
    String.append_assoc]

/-- **The object of an interface** is its prototype and the lines of the object. -/
theorem Interface.text_objectDeclaration (i : Interface) : i.objectDeclaration.text =
    "declare var " ++ i.name ++ ": \x7b\n" ++ indentation ++ "prototype: " ++ i.name ++ ";\n" ++
      String.join ((i.blockLines .object).map MemberLine.text) ++ "\x7d;\n\n" := by
  have hprototype : itemText ⟨[], ["prototype: " ++ i.name]⟩ =
      indentation ++ "prototype: " ++ i.name ++ ";\n" := by
    simp [itemText, docText, String.append_assoc]
  have hproperties := i.join_properties .object
  have hmethods := i.join_methods .object
  rw [InterfaceBlock.isStatic] at hproperties hmethods
  rw [Interface.blockLines, List.map_append, List.map_append, List.map_append, String.join_append,
    String.join_append, String.join_append, ← i.join_constructors, ← i.join_constants .object,
    ← hproperties, ← hmethods]
  simp [Interface.objectDeclaration, Declaration.text, docText, hprototype,
    InterfaceBlock.constantItem, Function.comp_def, String.append_assoc]

end Blocks

/-! ## In a file -/

/-- **No member of an interface is lost or doubled.** Where the file for windows or workers is written, it
holds the blocks of the interfaces one pair after another, in place of nothing in the file of the graph
without interfaces. Between its heading and its closing, each block holds exactly the lines that the
interface declares in it, each once and in order. -/
theorem emit_interface_members {g : Graph} {flavor : Flavor} (hflavor : flavor ≠ .iterators)
    {text : String} (h : emit g flavor = .ok text) :
    ∃ before after : String,
      emit { g with interfaces := none } flavor = .ok (before ++ after) ∧
      text = before ++ String.join ((valuesOf g.interfaces).map fun i =>
        i.declaration.text ++ i.objectDeclaration.text) ++ after ∧
      ∀ i ∈ valuesOf g.interfaces, ∃ shape object : List MemberLine,
        Enumerates (i.Declares .shape) shape ∧ Enumerates (i.Declares .object) object ∧
        i.declaration.text =
          docText "" (docOf i.comment i.isDeprecated) ++ i.heading ++ " \x7b\n" ++
            String.join (shape.map MemberLine.text) ++ "\x7d\n\n" ∧
        i.objectDeclaration.text =
          "declare var " ++ i.name ++ ": \x7b\n" ++ indentation ++ "prototype: " ++ i.name ++ ";\n" ++
            String.join (object.map MemberLine.text) ++ "\x7d;\n\n" := by
  obtain ⟨first, last, hwritten, hrest⟩ := g.written_interfaces
  obtain ⟨before, after, hbefore, htext⟩ := emit_part hflavor h hwritten hrest fun hnamed =>
    { hnamed with interfaces := by simp [valuesOf] }
  refine ⟨before, after, hbefore, ?_, fun i _ => ⟨i.blockLines .shape, i.blockLines .object,
    i.enumerates_blockLines .shape, i.enumerates_blockLines .object, i.text_declaration,
    i.text_objectDeclaration⟩⟩
  simpa using htext

/-- A constant, a constructor, a static property, an overloaded method and methods without overloads. -/
def barrier : Interface where
  name := "Barrier"
  constants := some (.ofList [
    ("OPEN", { name := "OPEN", type := ⟨some (.named "short"), none, none⟩ })])
  constructor := some { signatures := [{}, { params := [{ name := "width" }] }] }
  properties := some (.ofList [
    ("count", { name := "count", isStatic := some true }),
    ("width", { name := "width", comment := some "In metres." })])
  methods := some (.ofList [
    ("close", { name := "close", isStatic := some true }),
    ("swing", { name := "swing", signatures := [{}, { params := [{ name := "angle" }] }] }),
    ("lock", { name := "lock" })])

/-- A graph of this interface. -/
def barrierGraph : Graph where
  interfaces := some (.ofList [("Barrier", barrier)])

/-- Its blocks share the constant and divide all else. -/
theorem barrierGraph_emit : ∃ text before after : String, ∃ shape object : List MemberLine,
    emit barrierGraph .web = .ok text ∧
      text = before ++ (barrier.declaration.text ++ barrier.objectDeclaration.text) ++ after ∧
      barrier.declaration.text = barrier.heading ++ " \x7b\n" ++
        String.join (shape.map MemberLine.text) ++ "\x7d\n\n" ∧
      shape.map (·.line) =
        ["readonly OPEN: number", "width: any", "lock(): void", "swing(): any", "swing(angle: any): any"] ∧
      object.map (·.line) =
        ["new(): Barrier", "new(width: any): Barrier", "readonly OPEN: number", "count: any",
          "close(): void"] := by
  have hemit : ∃ text, emit barrierGraph .web = .ok text := ⟨_, by rfl⟩
  obtain ⟨text, htext⟩ := hemit
  obtain ⟨before, after, -, hplace, hblocks⟩ := emit_interface_members (by decide) htext
  have hvalues : valuesOf barrierGraph.interfaces = [barrier] := by decide +kernel
  obtain ⟨shape, object, hshape, hobject, hshapeText, -⟩ := hblocks barrier (by simp [hvalues])
  refine ⟨text, before, after, shape, object, htext, ?_, ?_, ?_, ?_⟩
  · simpa [hvalues] using hplace
  · simpa [barrier, docText, docOf, Interface.isDeprecated] using hshapeText
  · rw [hshape.unique (barrier.enumerates_blockLines .shape)]
    decide +kernel
  · rw [hobject.unique (barrier.enumerates_blockLines .object)]
    decide +kernel

end IdlDecls
