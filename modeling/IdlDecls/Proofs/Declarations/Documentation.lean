import IdlDecls.Proofs.Declarations.Files
import IdlDecls.Proofs.Text.Comment

/-!
# Comments in a file

Each line of a comment becomes a documentation line of its own: indentation, an opening, the trimmed line
and a closing. Nothing in the line is replaced, so the documentation line is read as a comment to its end
exactly if the line holds no closing of its own (`docLine_isComment_iff`), and the documentation of a whole
file is read as comments exactly if no comment that is written in it holds one
(`emit_documentation_isComment_iff`). `acceptGraph_emit_leaves_comment` is a file in which the rest of a
comment's line is read as code.
-/

namespace IdlDecls

open Declaration Text

/-! ## Documentation lines -/

/-- A line that is a comment and nothing else: behind spaces a comment opens, and it ends with the line. -/
def IsCommentLine (s : String) : Prop :=
  ∃ indent body : List Char, s.toList = indent ++ '/' :: '*' :: body ∧ (∀ c ∈ indent, c = ' ') ∧
    behindComment body = some ['\n']

/-- Spaces end where something else stands. -/
theorem eq_of_spaces_append {indent indent' rest rest' : List Char} {c d : Char}
    (hindent : ∀ c ∈ indent, c = ' ') (hindent' : ∀ c ∈ indent', c = ' ') (hc : c ≠ ' ') (hd : d ≠ ' ')
    (h : indent ++ c :: rest = indent' ++ d :: rest') : c :: rest = d :: rest' := by
  induction indent generalizing indent' with
  | nil =>
    cases indent' with
    | nil => exact h
    | cons e more => exact absurd ((List.cons.inj h).1.trans (hindent' e (by simp))) hc
  | cons e more ih =>
    cases indent' with
    | nil => exact absurd ((List.cons.inj h).1.symm.trans (hindent e (by simp))) hd
    | cons e' more' =>
      exact ih (fun c hc => hindent c (by simp [hc])) (fun c hc => hindent' c (by simp [hc]))
        (List.cons.inj h).2

/-- **When a documentation line is a comment.** -/
theorem docLine_isComment_iff {indent : String} (hindent : ∀ c ∈ indent.toList, c = ' ') (line : String) :
    IsCommentLine (docLine indent line) ↔ ¬ HoldsClosing line := by
  have hline : (docLine indent line).toList = indent.toList ++
      '/' :: '*' :: ('*' :: ' ' :: line.toList ++ ' ' :: '*' :: '/' :: ['\n']) := by
    have hopen : "/** ".toList = ['/', '*', '*', ' '] := by decide
    have hclose : " */\n".toList = [' ', '*', '/', '\n'] := by decide
    simp [docLine, String.toList_append, hopen, hclose]
  have hpair : ¬ HoldsClosing line ↔ ¬ ['*', '/'] <:+: '*' :: ' ' :: line.toList := by
    rw [HoldsClosing, pair_infix_cons, pair_infix_cons]
    simp
  rw [IsCommentLine, hline, hpair, ← behindComment_iff _ ['\n']]
  constructor
  · rintro ⟨indent', body, heq, hindent', hbody⟩
    have hrest := eq_of_spaces_append hindent hindent' (by decide) (by decide) heq
    rwa [(List.cons.inj (List.cons.inj hrest).2).2]
  · exact fun h => ⟨indent.toList, _, rfl, hindent, h⟩

/-! ## The comments of definitions -/

/-- The documentation lines of a declaration. -/
def Declaration.documentation : Declaration → List String
  | .block doc _ items _ => doc ++ items.flatMap (·.doc)
  | .typeAlias _ _ => []

/-- Some lines of documentation hold a closing. -/
def AnyClosing (lines : List String) : Prop := ∃ line ∈ lines, HoldsClosing line

@[simp] theorem anyClosing_nil : ¬ AnyClosing [] := by
  simp [AnyClosing]

@[simp] theorem anyClosing_append {lines lines' : List String} :
    AnyClosing (lines ++ lines') ↔ AnyClosing lines ∨ AnyClosing lines' := by
  simp [AnyClosing, or_and_right, exists_or]

@[simp] theorem anyClosing_flatMap {α : Type} {parts : List α} {lines : α → List String} :
    AnyClosing (parts.flatMap lines) ↔ ∃ part ∈ parts, AnyClosing (lines part) := by
  simp only [AnyClosing, List.mem_flatMap]
  constructor
  · rintro ⟨line, ⟨part, hpart, hline⟩, hclosing⟩
    exact ⟨part, hpart, line, hline, hclosing⟩
  · rintro ⟨part, hpart, line, hline, hclosing⟩
    exact ⟨line, ⟨part, hpart, hline⟩, hclosing⟩

/-- **The documentation of a comment holds a closing exactly if the comment does.** -/
@[simp] theorem anyClosing_docOf {comment : Option String} {deprecated : Bool} :
    AnyClosing (docOf comment deprecated) ↔ ∃ c, comment = some c ∧ HoldsClosing c := by
  have hmark : ¬ AnyClosing (if deprecated then ["@deprecated"] else []) := by
    cases deprecated with
    | false => simp
    | true =>
      have hdeprecated : ¬ HoldsClosing "@deprecated" := not_holdsClosing_of_not_mem (by decide)
      simpa [AnyClosing] using hdeprecated
  unfold docOf
  rw [anyClosing_append, or_iff_left hmark]
  cases comment with
  | none => simp
  | some c =>
    by_cases hblank : blank c = true
    · simp [hblank, not_holdsClosing_of_blank hblank]
    · simp [hblank, AnyClosing, holdsClosing_trim, exists_mem_lines_holdsClosing]

/-- The comments that are written with the shape of an interface: its own, those of its constants and of
what is not static. -/
inductive Interface.ShapeComment (i : Interface) (comment : String) : Prop where
  | own : i.comment = some comment → ShapeComment i comment
  | constant {c : Constant} :
      c ∈ valuesOf i.constants → c.comment = some comment → ShapeComment i comment
  | property {p : Property} : p ∈ valuesOf i.properties → p.isStatic.getD false = false →
      p.comment = some comment → ShapeComment i comment
  | method {m : Method} : m ∈ valuesOf i.methods → m.isStatic.getD false = false →
      m.comment = some comment → ShapeComment i comment

/-- The comments that are written with the object of an interface: those of what is static. -/
inductive Interface.ObjectComment (i : Interface) (comment : String) : Prop where
  | property {p : Property} : p ∈ valuesOf i.properties → p.isStatic.getD false = true →
      p.comment = some comment → ObjectComment i comment
  | method {m : Method} : m ∈ valuesOf i.methods → m.isStatic.getD false = true →
      m.comment = some comment → ObjectComment i comment

/-- The comments that are written in the file of a graph. Those of the members of dictionaries and
namespaces, of static members of mixins and callback interfaces, of constructors, type definitions and
enumerations are not. -/
inductive Graph.WritesComment (g : Graph) (comment : String) : Prop where
  | dictionary {d : Dictionary} :
      d ∈ valuesOf g.dictionaries → d.comment = some comment → WritesComment g comment
  | mixin {m : Interface} :
      m ∈ valuesOf g.mixins → m.ShapeComment comment → WritesComment g comment
  | interface {i : Interface} :
      i ∈ valuesOf g.interfaces → i.ShapeComment comment → WritesComment g comment
  | interfaceObject {i : Interface} :
      i ∈ valuesOf g.interfaces → i.ObjectComment comment → WritesComment g comment
  | callbackInterface {i : Interface} :
      i ∈ valuesOf g.callbackInterfaces → i.ShapeComment comment → WritesComment g comment
  | callbackFunction {f : CallbackFunction} :
      f ∈ valuesOf g.callbackFunctions → f.comment = some comment → WritesComment g comment
  | nameSpace {n : Interface} :
      n ∈ g.namespaces.getD [] → n.comment = some comment → WritesComment g comment

theorem Interface.anyClosing_propertyItems {i : Interface} {isStatic : Bool} :
    AnyClosing ((i.propertyItems isStatic).flatMap (·.doc)) ↔
      ∃ p ∈ valuesOf i.properties, p.isStatic.getD false = isStatic ∧
        ∃ c, p.comment = some c ∧ HoldsClosing c := by
  simp [Interface.propertyItems, Property.item, and_assoc]

theorem Interface.anyClosing_methodItems {i : Interface} {isStatic : Bool} :
    AnyClosing ((i.methodItems isStatic).flatMap (·.doc)) ↔
      ∃ m ∈ valuesOf i.methods, m.isStatic.getD false = isStatic ∧
        ∃ c, m.comment = some c ∧ HoldsClosing c := by
  simp [Interface.methodItems, Method.item, and_assoc]

theorem Interface.anyClosing_declaration {i : Interface} :
    AnyClosing i.declaration.documentation ↔ ∃ c, i.ShapeComment c ∧ HoldsClosing c := by
  have hconstants : AnyClosing (((valuesOf i.constants).map Constant.item).flatMap (·.doc)) ↔
      ∃ c ∈ valuesOf i.constants, ∃ comment, c.comment = some comment ∧ HoldsClosing comment := by
    simp [Constant.item]
  rw [Interface.declaration, Declaration.documentation, List.flatMap_append, List.flatMap_append,
    anyClosing_append, anyClosing_append, anyClosing_append, anyClosing_docOf, hconstants,
    anyClosing_propertyItems, anyClosing_methodItems]
  constructor
  · rintro (⟨c, hc, hclosing⟩ | (⟨x, hx, c, hc, hclosing⟩ | ⟨p, hp, hstatic, c, hc, hclosing⟩) |
      ⟨m, hm, hstatic, c, hc, hclosing⟩)
    · exact ⟨c, .own hc, hclosing⟩
    · exact ⟨c, .constant hx hc, hclosing⟩
    · exact ⟨c, .property hp hstatic hc, hclosing⟩
    · exact ⟨c, .method hm hstatic hc, hclosing⟩
  · rintro ⟨c, hc | ⟨hx, hc⟩ | ⟨hp, hstatic, hc⟩ | ⟨hm, hstatic, hc⟩, hclosing⟩
    · exact .inl ⟨c, hc, hclosing⟩
    · exact .inr (.inl (.inl ⟨_, hx, c, hc, hclosing⟩))
    · exact .inr (.inl (.inr ⟨_, hp, hstatic, c, hc, hclosing⟩))
    · exact .inr (.inr ⟨_, hm, hstatic, c, hc, hclosing⟩)

theorem Interface.anyClosing_objectDeclaration {i : Interface} :
    AnyClosing i.objectDeclaration.documentation ↔ ∃ c, i.ObjectComment c ∧ HoldsClosing c := by
  have hundocumented : ¬ AnyClosing ((⟨[], ["prototype: " ++ i.name]⟩ :: i.constructorItems ++
      (valuesOf i.constants).map (fun c => (⟨[], [c.line]⟩ : Item))).flatMap (·.doc)) := by
    simp [Interface.constructorItems]
  rw [Interface.objectDeclaration, Declaration.documentation, List.nil_append, List.flatMap_append,
    List.flatMap_append, anyClosing_append, anyClosing_append, or_iff_right hundocumented,
    anyClosing_propertyItems, anyClosing_methodItems]
  constructor
  · rintro (⟨p, hp, hstatic, c, hc, hclosing⟩ | ⟨m, hm, hstatic, c, hc, hclosing⟩)
    · exact ⟨c, .property hp hstatic hc, hclosing⟩
    · exact ⟨c, .method hm hstatic hc, hclosing⟩
  · rintro ⟨c, ⟨hp, hstatic, hc⟩ | ⟨hm, hstatic, hc⟩, hclosing⟩
    · exact .inl ⟨_, hp, hstatic, c, hc, hclosing⟩
    · exact .inr ⟨_, hm, hstatic, c, hc, hclosing⟩

theorem Dictionary.anyClosing_declaration {d : Dictionary} :
    AnyClosing d.declaration.documentation ↔ ∃ c, d.comment = some c ∧ HoldsClosing c := by
  simp [Dictionary.declaration, Declaration.documentation]

theorem CallbackFunction.anyClosing_declaration {f : CallbackFunction} :
    AnyClosing f.declaration.documentation ↔ ∃ c, f.comment = some c ∧ HoldsClosing c := by
  simp [CallbackFunction.declaration, Declaration.documentation]

theorem Interface.anyClosing_namespaceDeclaration {n : Interface} :
    AnyClosing n.namespaceDeclaration.documentation ↔ ∃ c, n.comment = some c ∧ HoldsClosing c := by
  simp [Interface.namespaceDeclaration, Declaration.documentation]

/-- The documentation of parts of a file. -/
theorem anyClosing_parts {α : Type} {parts : List α} {declare : α → List Declaration} :
    AnyClosing ((parts.flatMap declare).flatMap Declaration.documentation) ↔
      ∃ part ∈ parts, ∃ d ∈ declare part, AnyClosing d.documentation := by
  simp only [anyClosing_flatMap, List.mem_flatMap]
  constructor
  · rintro ⟨d, ⟨part, hpart, hd⟩, hclosing⟩
    exact ⟨part, hpart, d, hd, hclosing⟩
  · rintro ⟨part, hpart, d, hd, hclosing⟩
    exact ⟨d, ⟨part, hpart, hd⟩, hclosing⟩

/-- **The documentation of a file holds a closing exactly if a comment that is written does.** -/
theorem Graph.anyClosing_written {g : Graph} :
    AnyClosing (g.written.flatMap Declaration.documentation) ↔
      ∃ c, g.WritesComment c ∧ HoldsClosing c := by
  have htypedef (t : Typedef) : t.declaration.documentation = [] := rfl
  have henum (e : Enumeration) : e.declaration.documentation = [] := rfl
  simp only [Graph.written, List.flatMap_append, anyClosing_append, anyClosing_parts,
    List.exists_mem_cons_iff, List.not_mem_nil, false_and, exists_false, or_false,
    Dictionary.anyClosing_declaration, Interface.anyClosing_declaration,
    Interface.anyClosing_objectDeclaration, CallbackFunction.anyClosing_declaration,
    Interface.anyClosing_namespaceDeclaration, htypedef, henum, anyClosing_nil, and_false]
  constructor
  · rintro ((((((⟨d, hd, c, hc, hclosing⟩ | ⟨m, hm, c, hc, hclosing⟩) |
      ⟨i, hi, ⟨c, hc, hclosing⟩ | ⟨c, hc, hclosing⟩⟩) | ⟨i, hi, c, hc, hclosing⟩) |
      ⟨f, hf, c, hc, hclosing⟩) | ⟨n, hn, c, hc, hclosing⟩))
    · exact ⟨c, .dictionary hd hc, hclosing⟩
    · exact ⟨c, .mixin hm hc, hclosing⟩
    · exact ⟨c, .interface hi hc, hclosing⟩
    · exact ⟨c, .interfaceObject hi hc, hclosing⟩
    · exact ⟨c, .callbackInterface hi hc, hclosing⟩
    · exact ⟨c, .callbackFunction hf hc, hclosing⟩
    · exact ⟨c, .nameSpace hn hc, hclosing⟩
  · rintro ⟨c, hwrites, hclosing⟩
    cases hwrites with
    | dictionary hd hc => exact .inl (.inl (.inl (.inl (.inl ⟨_, hd, c, hc, hclosing⟩))))
    | mixin hm hc => exact .inl (.inl (.inl (.inl (.inr ⟨_, hm, c, hc, hclosing⟩))))
    | interface hi hc => exact .inl (.inl (.inl (.inr ⟨_, hi, .inl ⟨c, hc, hclosing⟩⟩)))
    | interfaceObject hi hc => exact .inl (.inl (.inl (.inr ⟨_, hi, .inr ⟨c, hc, hclosing⟩⟩)))
    | callbackInterface hi hc => exact .inl (.inl (.inr ⟨_, hi, c, hc, hclosing⟩))
    | callbackFunction hf hc => exact .inl (.inr ⟨_, hf, c, hc, hclosing⟩)
    | nameSpace hn hc => exact .inr ⟨_, hn, c, hc, hclosing⟩

/-! ## In a file -/

/-- The iteration methods have no documentation. -/
theorem Interface.documentation_of_iteratorDeclarations {i : Interface} {written : List Declaration}
    (h : i.iteratorDeclarations = .ok written) : ∀ d ∈ written, d.documentation = [] := by
  rw [Interface.iteratorDeclarations] at h
  cases hiterator : i.iterator with
  | none =>
    rw [hiterator] at h
    cases h
    simp
  | some d =>
    simp only [hiterator, named] at h
    by_cases hname : i.name = ""
    · rw [if_pos hname] at h
      cases h
    · rw [if_neg hname] at h
      cases h
      cases d.entryTypes? with
      | none => simp
      | some entry => simp [Declaration.documentation]

theorem Graph.documentation_of_iteratorDeclarations {g : Graph} {written : List Declaration}
    (h : g.iteratorDeclarations = .ok written) : ∀ d ∈ written, d.documentation = [] := by
  obtain ⟨parts, hparts, rfl⟩ := map_eq_ok_iff.1 h
  intro d hd
  obtain ⟨own, hown, hd⟩ := List.mem_flatten.1 hd
  obtain ⟨i, -, hi⟩ := exists_of_forall₂ (mapM_eq_ok_iff.1 hparts) own hown
  exact Interface.documentation_of_iteratorDeclarations hi d hd

/-- The documentation of a file holds a closing exactly if a comment that is written in it does. -/
theorem Graph.anyClosing_declarationsFor {g : Graph} {flavor : Flavor}
    {declarations : List Declaration} (h : g.declarationsFor flavor = .ok declarations) :
    AnyClosing (declarations.flatMap Declaration.documentation) ↔
      ∃ c, flavor ≠ .iterators ∧ g.WritesComment c ∧ HoldsClosing c := by
  by_cases hflavor : flavor = .iterators
  · subst hflavor
    have hnone : declarations.flatMap Declaration.documentation = [] :=
      List.flatMap_eq_nil_iff.2 (Graph.documentation_of_iteratorDeclarations h)
    simp [hnone]
  · rw [Graph.declarationsFor_of_ne hflavor] at h
    obtain ⟨-, rfl⟩ := Graph.declarations_eq_ok_iff.1 h
    rw [Graph.anyClosing_written]
    simp [hflavor]

/-- **When the documentation of a file is comments to its end.** A file that can be written is its banner
and its declarations. Each documentation line of these, wherever it stands, is a comment and nothing else
exactly if no comment that is written in the file holds a closing. -/
theorem emit_documentation_isComment_iff {g : Graph} {flavor : Flavor} {text : String}
    (h : emit g flavor = .ok text) : ∃ declarations : List Declaration,
      g.declarationsFor flavor = .ok declarations ∧
      text = flavor.banner ++ String.join (declarations.map Declaration.text) ∧
      ((∀ d ∈ declarations, ∀ line ∈ d.documentation, ∀ indent ∈ ["", indentation],
          IsCommentLine (docLine indent line)) ↔
        (flavor ≠ .iterators → ∀ comment, g.WritesComment comment → ¬ HoldsClosing comment)) := by
  obtain ⟨declarations, hdeclarations, rfl⟩ := map_eq_ok_iff.1 h
  refine ⟨declarations, hdeclarations, rfl, ?_⟩
  have hline (line : String) : (∀ indent ∈ ["", indentation], IsCommentLine (docLine indent line)) ↔
      ¬ HoldsClosing line := by
    simp [docLine_isComment_iff, indentation]
  have hclosing := not_congr (Graph.anyClosing_declarationsFor hdeclarations)
  rw [anyClosing_flatMap] at hclosing
  simp only [hline]
  simpa [AnyClosing] using hclosing

/-- An interface whose comment speaks of a media range. -/
def acceptGraph : Graph where
  interfaces := some (.ofList [("Accept", { name := "Accept", comment := some "Accepts */*." })])

/-- The comment ends behind its second word, and the rest of the line is read as code. -/
theorem acceptGraph_emit_leaves_comment :
    emit acceptGraph .web = .ok (Flavor.banner .web ++ docLine "" "Accepts */*." ++
      "interface Accept \x7b\n\x7d\n\ndeclare var Accept: \x7b\n    prototype: Accept;\n\x7d;\n\n") ∧
    ¬ IsCommentLine (docLine "" "Accepts */*.") ∧
    behindComment ((docLine "" "Accepts */*.").toList.drop 2) = some "*. */\n".toList := by
  have hclosing : HoldsClosing "Accepts */*." :=
    ⟨"Accepts ".toList, "*.".toList, by decide⟩
  have hemit : emit acceptGraph .web = .ok (Flavor.banner .web ++ docLine "" "Accepts */*." ++
      "interface Accept \x7b\n\x7d\n\ndeclare var Accept: \x7b\n    prototype: Accept;\n\x7d;\n\n") := by
    decide +kernel
  exact ⟨hemit, fun hcomment => (docLine_isComment_iff (by simp) _).1 hcomment hclosing,
    by decide +kernel⟩

end IdlDecls
