import Mathlib.Data.List.Flatten
import IdlDecls.Proofs.Declarations.TypeMeaning
import IdlDecls.Proofs.Model.NamePlaces

/-!
# The names in type texts

A reference is walked through twice: once for the names that it mentions, which tell what is reachable,
and once for its text. A text is put together from TypeScript's own spellings and from names that stand
for themselves (`WrittenWith`). The latter are the names that are not mapped, in every member of a union
and in the arguments that a mapped name is written with (`TypeRef.Prints`), and all of them are among the
names that are mentioned, in the same order (`TypeRef.exists_printsExactly`). So no text speaks of a type
that is not tracked.
-/

namespace IdlDecls

/-! ## Texts and the names in them -/

/-- The spellings of TypeScript's own that type texts are put together from. -/
def typeSpellings : List String :=
  ["any", "string", "boolean", "number", "bigint", "void", "null", "ReadonlyArray", "Promise", "Record",
    " | ", ", ", "<", ">", "(", ")", "[]"]

/-- A text is written with some names, which stand in it one after another as they are, and with nothing
else but TypeScript's own spellings. -/
inductive WrittenWith : String → List String → Prop where
  | empty : WrittenWith "" []
  | spelling {own : String} : own ∈ typeSpellings → WrittenWith own []
  | name (name : String) : WrittenWith name [name]
  | append {a b : String} {ms ns : List String} :
      WrittenWith a ms → WrittenWith b ns → WrittenWith (a ++ b) (ms ++ ns)

/-- The number of arguments that a name is written with; names that stand for themselves have none. -/
def writtenArity (name : String) : Nat :=
  if name ∈ ["sequence", "FrozenArray", "ObservableArray", "Promise"] then 1
  else if name = "record" then 2
  else 0

namespace WrittenWith

variable {a b : String} {ms ns : List String}

/-- TypeScript's own spellings bring no names. -/
theorem then_spelling (h : WrittenWith a ms) {own : String} (hown : own ∈ typeSpellings) :
    WrittenWith (a ++ own) ms := by
  simpa using h.append (spelling hown)

theorem after_spelling (h : WrittenWith a ms) {own : String} (hown : own ∈ typeSpellings) :
    WrittenWith (own ++ a) ms :=
  (spelling hown).append h

theorem nullableText (h : WrittenWith a ms) (nullable : Option Bool) :
    WrittenWith (nullableText nullable a) ms := by
  rw [IdlDecls.nullableText]
  split
  · have hbar : a ++ " | " ++ "null" = a ++ " | null" := String.append_assoc
    rw [← hbar]
    exact (h.then_spelling (by decide)).then_spelling (by decide)
  · exact h

theorem arrayText (h : WrittenWith a ms) : WrittenWith (arrayText a) ms := by
  rw [IdlDecls.arrayText]
  split
  · have hgroup : "(" ++ a ++ ")" ++ "[]" = "(" ++ a ++ ")[]" := String.append_assoc
    rw [← hgroup]
    exact ((h.after_spelling (by decide)).then_spelling (by decide)).then_spelling (by decide)
  · exact h.then_spelling (by decide)

/-- Bars between texts bring no names. -/
theorem bars {texts : List String} {names : List (List String)}
    (h : List.Forall₂ WrittenWith texts names) :
    WrittenWith (" | ".intercalate texts) names.flatten := by
  induction h with
  | nil => exact .empty
  | cons hfirst hrest ih =>
    cases hrest with
    | nil => simpa using hfirst
    | cons hsecond hothers =>
      rw [String.intercalate_cons_cons, List.flatten_cons]
      exact (hfirst.then_spelling (by decide)).append ih

/-- The text of an argument, or `any` for one that is missing. -/
theorem argument {texts : List String} {names : List (List String)}
    (h : List.Forall₂ WrittenWith texts names) (i : Nat) :
    WrittenWith (texts[i]?.getD "any") (names[i]?.getD []) := by
  induction h generalizing i with
  | nil => exact .spelling (by decide : "any" ∈ typeSpellings)
  | cons hfirst _ ih =>
    cases i with
    | zero => exact hfirst
    | succ i => simpa using ih i

/-- A generic name of TypeScript with a text in angle brackets. -/
theorem apply (h : WrittenWith a ms) {generic : String} (hgeneric : generic ∈ typeSpellings) :
    WrittenWith (generic ++ "<" ++ a ++ ">") ms := by
  have hopen : WrittenWith (generic ++ "<") [] := (spelling hgeneric).then_spelling (by decide)
  exact (hopen.append h).then_spelling (by decide)

theorem primitive {name mapped : String} (h : primitiveName? name = some mapped) :
    WrittenWith mapped [] := by
  have hown : ∀ word ∈ ["string", "boolean", "number", "bigint", "any", "void"],
      word ∈ typeSpellings := by decide
  exact .spelling (hown mapped (mem_of_primitiveName?_eq_some h))

/-- A mapped name is written with the names in its arguments, any other name with itself. -/
theorem genericText {texts : List String} {names : List (List String)}
    (h : List.Forall₂ WrittenWith texts names) (name : String) :
    WrittenWith (genericText name texts)
      ([name].filter (¬ IsMappedName ·) ++ (names.take (writtenArity name)).flatten) := by
  have hone : (names.take 1).flatten = names[0]?.getD [] := by
    cases names <;> simp
  have htwo : (names.take 2).flatten = names[0]?.getD [] ++ names[1]?.getD [] := by
    rcases names with _ | ⟨first, _ | ⟨second, rest⟩⟩ <;> simp
  have hfirst := argument h 0
  have hsecond := argument h 1
  by_cases hsequence : name = "sequence"
  · simpa [IdlDecls.genericText, IsMappedName, writtenArity, hsequence, hone]
      using hfirst.arrayText
  by_cases hfrozen : name = "FrozenArray" ∨ name = "ObservableArray"
  · have harray := hfirst.apply (by decide : "ReadonlyArray" ∈ typeSpellings)
    rcases hfrozen with rfl | rfl <;>
      simpa [IdlDecls.genericText, IsMappedName, writtenArity, hone] using harray
  by_cases hpromise : name = "Promise"
  · have hpromised := hfirst.apply (by decide : "Promise" ∈ typeSpellings)
    simpa [IdlDecls.genericText, IsMappedName, writtenArity, hpromise, hone] using hpromised
  by_cases hrecord : name = "record"
  · have hboth := (hfirst.then_spelling (by decide : ", " ∈ typeSpellings)).append hsecond
    have happlied := hboth.apply (by decide : "Record" ∈ typeSpellings)
    simpa [IdlDecls.genericText, IsMappedName, writtenArity, hrecord, htwo,
      String.append_assoc] using happlied
  · have hnone : writtenArity name = 0 := by
      simp_all [writtenArity]
    cases hprimitive : primitiveName? name with
    | some mapped =>
      have hmapped : IsMappedName name := Or.inr (by simp [hprimitive])
      simpa [IdlDecls.genericText, hmapped, hnone, hsequence, hfrozen, hpromise, hrecord,
        hprimitive] using primitive hprimitive
    | none =>
      have hmapped : ¬ IsMappedName name := by
        simp_all [IsMappedName]
      simpa [IdlDecls.genericText, hmapped, hnone, hsequence, hfrozen, hpromise, hrecord,
        hprimitive] using WrittenWith.name name

end WrittenWith

/-! ## The names in the text of a reference -/

namespace TypeRef

/-- The arguments that the text of a reference has. -/
def writtenArguments (t : TypeRef) : List TypeRef :=
  match t.ownName? with
  | some own => t.argumentList.take (writtenArity own)
  | none => []

/-- The text of a reference has a name as it stands: its own that is not mapped, or one in a part that is
written. -/
inductive Prints : TypeRef → String → Prop where
  | own {t : TypeRef} {name : String} :
      t.ownName? = some name → ¬ IsMappedName name → t.Prints name
  | member {t m : TypeRef} {name : String} :
      m ∈ t.memberList → m.Prints name → t.Prints name
  | argument {t a : TypeRef} {name : String} :
      a ∈ t.writtenArguments → a.Prints name → t.Prints name

theorem prints_iff {t : TypeRef} {name : String} : t.Prints name ↔
    (t.ownName? = some name ∧ ¬ IsMappedName name) ∨ (∃ m ∈ t.memberList, m.Prints name) ∨
      ∃ a ∈ t.writtenArguments, a.Prints name := by
  constructor
  · rintro (⟨hown, hmapped⟩ | ⟨hm, hname⟩ | ⟨ha, hname⟩)
    · exact Or.inl ⟨hown, hmapped⟩
    · exact Or.inr (Or.inl ⟨_, hm, hname⟩)
    · exact Or.inr (Or.inr ⟨_, ha, hname⟩)
  · rintro (⟨hown, hmapped⟩ | ⟨m, hm, hname⟩ | ⟨a, ha, hname⟩)
    · exact .own hown hmapped
    · exact .member hm hname
    · exact .argument ha hname

theorem writtenArguments_sublist (t : TypeRef) : t.writtenArguments.Sublist t.argumentList := by
  rw [writtenArguments]
  split
  · exact List.take_sublist _ _
  · exact List.nil_sublist _

/-- The names that stand in the text of a reference, one after another. -/
structure PrintsExactly (t : TypeRef) (printed : List String) : Prop where
  written : WrittenWith t.text printed
  complete : ∀ name, name ∈ printed ↔ t.Prints name
  tracked : printed.Sublist t.names

theorem textsOfList_eq (types : List TypeRef) : textsOfList types = types.map text := by
  induction types with
  | nil => rfl
  | cons t rest ih => rw [textsOfList, ih, List.map_cons]

/-- The text of a reference without its nullable mark. -/
theorem text_eq (t : TypeRef) : t.text = nullableText t.nullable
    (match t.head with
      | none => "any"
      | some (.named name) => genericText name (t.argumentList.map text)
      | some (.union members) => " | ".intercalate (members.map text)) := by
  rcases t with ⟨_ | (name | members), _ | (types | type), nullable⟩ <;>
    simp [text.eq_def, TypeHead.text, TypeArguments.texts, textsOfList_eq, argumentList, head,
      arguments, TypeRef.nullable, TypeArguments.toList]

/-- The text of a reference is written with its own name unless that is mapped, with the names of its
members, and with those of the arguments that are written. -/
theorem written_parts (t : TypeRef) {ofMember ofArgument : TypeRef → List String}
    (hmembers : ∀ m ∈ t.memberList, WrittenWith m.text (ofMember m))
    (harguments : ∀ a ∈ t.argumentList, WrittenWith a.text (ofArgument a)) :
    WrittenWith t.text (t.ownName?.toList.filter (¬ IsMappedName ·) ++
      t.memberList.flatMap ofMember ++ t.writtenArguments.flatMap ofArgument) := by
  rw [text_eq]
  refine WrittenWith.nullableText ?_ t.nullable
  rcases hhead : t.head with _ | (own | members)
  · have hany : "any" ∈ typeSpellings := by decide
    simpa [ownName?, memberList, writtenArguments, hhead] using WrittenWith.spelling hany
  · have htexts : List.Forall₂ WrittenWith (t.argumentList.map text)
        (t.argumentList.map ofArgument) := by
      simpa using harguments
    simpa [ownName?, memberList, writtenArguments, hhead, ← List.map_take, List.flatMap_def]
      using WrittenWith.genericText htexts own
  · have htexts : List.Forall₂ WrittenWith (members.map text) (members.map ofMember) := by
      simpa [memberList, hhead] using hmembers
    simpa [ownName?, memberList, writtenArguments, hhead, List.flatMap_def]
      using WrittenWith.bars htexts

/-- **The names in the text of a reference** are among those that it mentions, in the same order. -/
theorem exists_printsExactly (t : TypeRef) : ∃ printed, t.PrintsExactly printed := by
  induction t using parts_induction with
  | h t hmembers harguments =>
    choose! ofMember hmembers using hmembers
    choose! ofArgument harguments using harguments
    have hwritten : ∀ a ∈ t.writtenArguments, a.PrintsExactly (ofArgument a) := fun a ha =>
      harguments a (t.writtenArguments_sublist.subset ha)
    refine ⟨_, t.written_parts (fun m hm => (hmembers m hm).written)
      (fun a ha => (harguments a ha).written), fun name => ?_, ?_⟩
    · have hmember : (∃ m ∈ t.memberList, name ∈ ofMember m) ↔
          ∃ m ∈ t.memberList, m.Prints name :=
        exists_congr fun m => and_congr_right fun hm => (hmembers m hm).complete name
      have hargument : (∃ a ∈ t.writtenArguments, name ∈ ofArgument a) ↔
          ∃ a ∈ t.writtenArguments, a.Prints name :=
        exists_congr fun a => and_congr_right fun ha => (hwritten a ha).complete name
      rw [prints_iff, List.mem_append, List.mem_append, List.mem_flatMap, List.mem_flatMap, hmember,
        hargument, or_assoc]
      simp
    · rw [names_eq]
      have hmember := List.Sublist.flatMap_right t.memberList fun m hm => (hmembers m hm).tracked
      have hargument := List.Sublist.flatMap_right t.writtenArguments fun a ha =>
        (hwritten a ha).tracked
      exact (List.filter_sublist.append hmember).append
        (hargument.trans (t.writtenArguments_sublist.flatMap names))

/-- **Every name that is printed is tracked.** The names of a reference are those at all its places, each
as often as it stands there and in pre-order, and its text has no names but such as are among them. -/
theorem names_track_text (t : TypeRef) :
    (∃! listed, t.ListsNames listed ∧ t.names = listed.map Prod.snd) ∧
      ∃ printed, t.PrintsExactly printed :=
  ⟨t.existsUnique_listsNames, t.exists_printsExactly⟩

/-- A name that stands for itself is written without its arguments, which are tracked all the same. -/
example :
    let t : TypeRef := ⟨some (.named "Node"), some (.one ⟨some (.named "Event"), none, none⟩), none⟩
    t.text = "Node" ∧ t.names = ["Node", "Event"] := by
  decide +kernel

end TypeRef

end IdlDecls
