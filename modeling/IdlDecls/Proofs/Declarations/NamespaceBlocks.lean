import IdlDecls.Proofs.Declarations.Files
import IdlDecls.Proofs.Declarations.MemberLines

/-!
# The block of a namespace

A namespace is shaped like an interface, but its block is made on its own: its properties stand in it as
variables and the overloads of its methods as functions. Constants have no place in the block, and a
method without overloads, which an interface declares as a method that returns nothing, has no line in it.
So a namespace is written whole exactly if it has neither (`emit_namespace_members`);
in `logger_emit_drops_members` two of three members are missing.
-/

namespace IdlDecls

open Declaration

/-! ## What a namespace declares -/

/-- The lines that a namespace declares in its block. -/
inductive Interface.DeclaresInNamespace (n : Interface) : MemberLine → Prop where
  /-- A property is a variable, or a constant if it is only read. -/
  | property {key : String} {p : Property} :
      n.property? key = some p →
      n.DeclaresInNamespace
        { slot := .property key
          line := (if p.readOnly.getD false then "const " else "var ") ++ p.name ++ ": " ++
            p.type.text }
  /-- An overload of a method is a function. -/
  | method {key : String} {m : Method} {k : Nat} {s : Signature} :
      n.method? key = some m → m.signatures[k]? = some s →
      n.DeclaresInNamespace { slot := .method key k, line := "function " ++ m.name ++ s.text }

/-- A property as a variable. -/
def Property.variableItem (p : Property) : Item :=
  ⟨[], [(if p.readOnly.getD false then "const " else "var ") ++ p.name ++ ": " ++ p.type.text]⟩

/-- The overloads of a method as functions. -/
def Method.functionItem (m : Method) : Item :=
  ⟨[], m.signatures.map fun s => "function " ++ m.name ++ s.text⟩

/-- The lines of the block. -/
def Interface.namespaceLines (n : Interface) : List MemberLine :=
  memberLines (fun key _ => .property key) Property.variableItem (entriesOf n.properties) ++
    memberLines .method Method.functionItem (entriesOf n.methods)

theorem Method.isItemLine_functionItem {m : Method} {key : String} {l : MemberLine} :
    IsItemLine (.method key) m.functionItem l ↔ ∃ k s, m.signatures[k]? = some s ∧
      l = { slot := .method key k, line := "function " ++ m.name ++ s.text } := by
  simp [IsItemLine, Method.functionItem]

/-- What the block declares, the properties before the methods. -/
theorem Interface.declaresInNamespace_iff {n : Interface} {l : MemberLine} :
    n.DeclaresInNamespace l ↔
      (∃ key p, (key, p) ∈ entriesOf n.properties ∧
        IsItemLine (fun _ => .property key) p.variableItem l) ∨
      ∃ key m, (key, m) ∈ entriesOf n.methods ∧ IsItemLine (.method key) m.functionItem l := by
  constructor
  · intro h
    cases h with
    | property hp => exact .inl ⟨_, _, mem_entriesOf.2 hp, isItemLine_singleton.2 rfl⟩
    | method hm hs =>
      exact .inr ⟨_, _, mem_entriesOf.2 hm, Method.isItemLine_functionItem.2 ⟨_, _, hs, rfl⟩⟩
  · rintro (⟨key, p, hp, hl⟩ | ⟨key, m, hm, hl⟩)
    · rw [isItemLine_singleton.1 hl]
      exact .property (mem_entriesOf.1 hp)
    · obtain ⟨k, s, hs, rfl⟩ := Method.isItemLine_functionItem.1 hl
      exact .method (mem_entriesOf.1 hm) hs

/-- **The lines of the block are what the namespace declares.** -/
theorem Interface.enumerates_namespaceLines (n : Interface) :
    Enumerates n.DeclaresInNamespace n.namespaceLines := by
  have hproperties : Enumerates
      (fun l => ∃ key p, (key, p) ∈ entriesOf n.properties ∧
        IsItemLine (fun _ => .property key) p.variableItem l)
      (memberLines (fun key _ => .property key) Property.variableItem (entriesOf n.properties)) :=
    enumerates_memberLines_of_single ascending_entriesOf (fun _ _ => ⟨rfl, rfl⟩) fun _ => rfl
  have hmethods : Enumerates
      (fun l => ∃ key m, (key, m) ∈ entriesOf n.methods ∧ IsItemLine (.method key) m.functionItem l)
      (memberLines .method Method.functionItem (entriesOf n.methods)) :=
    enumerates_memberLines ascending_entriesOf (fun _ _ => ⟨rfl, rfl⟩)
      fun _ _ _ _ hlt _ => Or.inr ⟨rfl, Or.inr ⟨rfl, hlt⟩⟩
  refine (hproperties.append hmethods ?_).congr fun l => Interface.declaresInNamespace_iff.symm
  rintro _ _ ⟨_, _, -, _, _, -, rfl⟩ ⟨_, _, -, _, _, -, rfl⟩
  simp [MemberSlot.kind]

/-- The block is its heading and its lines. -/
theorem Interface.text_namespaceDeclaration (n : Interface) : n.namespaceDeclaration.text =
    docText "" (docOf n.comment n.isDeprecated) ++ "declare namespace " ++ n.name ++ " \x7b\n" ++
      String.join (n.namespaceLines.map MemberLine.text) ++ "\x7d\n\n" := by
  have hproperties : String.join (((valuesOf n.properties).map Property.variableItem).map itemText) =
      String.join ((memberLines (fun key _ => .property key) Property.variableItem
        (entriesOf n.properties)).map MemberLine.text) := by
    rw [valuesOf_eq_map_entriesOf]
    exact join_map_itemText fun p => Or.inr rfl
  have hmethods : String.join (((valuesOf n.methods).map Method.functionItem).map itemText) =
      String.join ((memberLines .method Method.functionItem
        (entriesOf n.methods)).map MemberLine.text) := by
    rw [valuesOf_eq_map_entriesOf]
    exact join_map_itemText fun m => Or.inr rfl
  rw [Interface.namespaceLines, List.map_append, String.join_append, ← hproperties, ← hmethods]
  simp [Interface.namespaceDeclaration, Declaration.text, Property.variableItem,
    Method.functionItem, Function.comp_def, String.append_assoc]

/-! ## What is lost -/

section Lost

variable {n : Interface} {lines : List MemberLine} (h : Enumerates n.DeclaresInNamespace lines)
  {key : String}
include h

/-- A constant has no line. -/
theorem Enumerates.constant_not_mem : .constant key ∉ lines.map MemberLine.slot := by
  rw [h.mem_map_slot]
  rintro ⟨_, _ | _, hslot⟩ <;> cases hslot

/-- A property has a line. -/
theorem Enumerates.property_mem {p : Property} (hp : n.property? key = some p) :
    .property key ∈ lines.map MemberLine.slot :=
  h.mem_map_slot.2 ⟨_, .property hp, rfl⟩

/-- A method has a line if it has an overload. -/
theorem Enumerates.method_mem_iff {m : Method} (hm : n.method? key = some m) :
    (∃ k, .method key k ∈ lines.map MemberLine.slot) ↔ m.signatures ≠ [] := by
  simp only [h.mem_map_slot]
  constructor
  · rintro ⟨k, _, hdeclared, hslot⟩
    cases hdeclared with
    | property _ => cases hslot
    | method hm' hs =>
      cases hslot
      cases hm.symm.trans hm'
      rintro hempty
      simp [hempty] at hs
  · intro hne
    obtain ⟨s, rest, hsignatures⟩ := List.exists_cons_of_ne_nil hne
    exact ⟨0, _, .method hm (by rw [hsignatures]; rfl), rfl⟩

end Lost

/-! ## In a file -/

/-- **Which members of a namespace are written.** Where the file for windows or workers is written, it
holds the blocks of the namespaces one after another, in place of nothing in the file of the graph without
namespaces. Each block holds the properties, and behind them the overloads of the methods, each once and
in the order of their keys. So every property has a line, a method has one exactly if it has overloads, and
a constant never has one. -/
theorem emit_namespace_members {g : Graph} {flavor : Flavor} (hflavor : flavor ≠ .iterators)
    {text : String} (h : emit g flavor = .ok text) :
    ∃ before after : String,
      emit { g with namespaces := none } flavor = .ok (before ++ after) ∧
      text = before ++
        String.join ((g.namespaces.getD []).map fun n => n.namespaceDeclaration.text) ++ after ∧
      ∀ n ∈ g.namespaces.getD [], ∃ lines : List MemberLine,
        Enumerates n.DeclaresInNamespace lines ∧
        n.namespaceDeclaration.text =
          docText "" (docOf n.comment n.isDeprecated) ++ "declare namespace " ++ n.name ++ " \x7b\n" ++
            String.join (lines.map MemberLine.text) ++ "\x7d\n\n" ∧
        (∀ key, .constant key ∉ lines.map MemberLine.slot) ∧
        (∀ key p, n.property? key = some p → .property key ∈ lines.map MemberLine.slot) ∧
        ∀ key m, n.method? key = some m →
          ((∃ k, .method key k ∈ lines.map MemberLine.slot) ↔ m.signatures ≠ []) := by
  obtain ⟨first, last, hwritten, hrest⟩ := g.written_namespaces
  obtain ⟨before, after, hbefore, htext⟩ := emit_part hflavor h hwritten hrest fun hnamed =>
    { hnamed with namespaces := by simp }
  refine ⟨before, after, hbefore, ?_, fun n _ => ?_⟩
  · simpa using htext
  · have hlines := n.enumerates_namespaceLines
    exact ⟨_, hlines, n.text_namespaceDeclaration, fun _ => hlines.constant_not_mem,
      fun _ _ => hlines.property_mem, fun _ _ => hlines.method_mem_iff⟩

/-- A namespace with a constant, a method with an overload and a method without one. -/
def logger : Interface where
  name := "logger"
  constants := some (.ofList [
    ("LIMIT", { name := "LIMIT", type := ⟨some (.named "unsigned short"), none, none⟩ })])
  methods := some (.ofList [
    ("flush", { name := "flush" }),
    ("log", { name := "log", signatures := [{ type := ⟨some (.named "undefined"), none, none⟩ }] })])

/-- Two of its members are missing where it is written as a namespace, none where it is written as an
interface. -/
theorem logger_emit_drops_members :
    emit { namespaces := some [logger] } .web = .ok (Flavor.banner .web ++
      "declare namespace logger \x7b\n    function log(): void;\n\x7d\n\n") ∧
    logger.declaration.text = "interface logger \x7b\n    readonly LIMIT: number;\n" ++
      "    flush(): void;\n    log(): void;\n\x7d\n\n" := by
  decide +kernel

end IdlDecls
