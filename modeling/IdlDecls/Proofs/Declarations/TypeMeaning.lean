import Mathlib.Data.List.Forall2
import IdlDecls.Declarations.TypeText
import IdlDecls.Proofs.Declarations.TypeGrammar

/-!
# What type texts mean

A reference means a list of alternatives: those of the members of a union one after another, and null
behind them where the reference is nullable. A sequence is the array of its whole argument, however many
alternatives that has, and the generic names are applied to theirs. The text of a legible reference has
one parse, and that parse means what the reference means (`TypeRef.text_unambiguous`): whether the item
of an array needs parentheses is decided by looking for a space in its text, and only a text with a bar or
with two arguments has one.
-/

namespace IdlDecls

/-! ## Legible references -/

/-- Names that are written as something else. -/
def IsMappedName (name : String) : Prop :=
  name ∈ ["sequence", "FrozenArray", "ObservableArray", "Promise", "record"] ∨
    (primitiveName? name).isSome

instance (name : String) : Decidable (IsMappedName name) := inferInstanceAs (Decidable (_ ∨ _))

/-- Names that are mapped, or that are names of the grammar as they stand. -/
def LegibleName (name : String) : Prop :=
  IsMappedName name ∨ IsTypeName name

instance (name : String) : Decidable (LegibleName name) := inferInstanceAs (Decidable (_ ∨ _))

mutual

/-- Every union in a reference has members, and every name in it is legible. -/
def TypeRef.Legible : TypeRef → Prop
  | .mk head arguments _ =>
    (match head with
      | none => True
      | some head => head.Legible) ∧
    (match arguments with
      | none => True
      | some arguments => arguments.Legible)

/-- The same for a head. -/
def TypeHead.Legible : TypeHead → Prop
  | .named name => LegibleName name
  | .union members => members ≠ [] ∧ TypeRef.AllLegible members

/-- The same for generic arguments. -/
def TypeArguments.Legible : TypeArguments → Prop
  | .many types => TypeRef.AllLegible types
  | .one type => type.Legible

/-- The same for each reference of a list. -/
def TypeRef.AllLegible : List TypeRef → Prop
  | [] => True
  | t :: rest => t.Legible ∧ TypeRef.AllLegible rest

end

/-! ## What references mean -/

/-- What a name with arguments means; a missing argument is `any`. -/
def TypeShape.ofName (name : String) (arguments : List (List TypeShape)) : TypeShape :=
  let argument (i : Nat) : List TypeShape := arguments[i]?.getD [.named "any"]
  if name = "sequence" then .array (argument 0)
  else if name = "FrozenArray" ∨ name = "ObservableArray" then
    .applied "ReadonlyArray" [argument 0]
  else if name = "Promise" then .applied "Promise" [argument 0]
  else if name = "record" then .applied "Record" [argument 0, argument 1]
  else .named ((primitiveName? name).getD name)

mutual

/-- The alternatives of a reference; one that says nothing is `any`. -/
def TypeRef.alternatives : TypeRef → List TypeShape
  | .mk head arguments nullable =>
    (match head with
      | none => [.named "any"]
      | some head =>
        head.alternatives (match arguments with
          | none => []
          | some arguments => arguments.alternatives)) ++
    if nullable.getD false then [.named "null"] else []

/-- The alternatives of a head with the meanings of its arguments. -/
def TypeHead.alternatives (arguments : List (List TypeShape)) : TypeHead → List TypeShape
  | .named name => [TypeShape.ofName name arguments]
  | .union members => (TypeRef.alternativesOfList members).flatten

/-- The alternatives of each generic argument. -/
def TypeArguments.alternatives : TypeArguments → List (List TypeShape)
  | .many types => TypeRef.alternativesOfList types
  | .one type => [type.alternatives]

/-- The alternatives of each reference of a list. -/
def TypeRef.alternativesOfList : List TypeRef → List (List TypeShape)
  | [] => []
  | t :: rest => t.alternatives :: TypeRef.alternativesOfList rest

end

/-! ## Texts with a meaning -/

/-- A text has a parse with a meaning. -/
def Spells (text : String) (meaning : List TypeShape) : Prop :=
  ∃ e : UnionExpr, e.characters = text.toList ∧ e.alternatives = meaning

theorem PostfixExpr.charactersAfter_append : ∀ as bs : List PostfixExpr,
    PostfixExpr.charactersAfter (as ++ bs) =
      PostfixExpr.charactersAfter as ++ PostfixExpr.charactersAfter bs
  | [], _ => rfl
  | a :: as, bs => by
    simp [PostfixExpr.charactersAfter, PostfixExpr.charactersAfter_append as bs]

theorem PostfixExpr.alternativesOfList_append : ∀ as bs : List PostfixExpr,
    PostfixExpr.alternativesOfList (as ++ bs) =
      PostfixExpr.alternativesOfList as ++ PostfixExpr.alternativesOfList bs
  | [], _ => rfl
  | a :: as, bs => by
    simp [PostfixExpr.alternativesOfList, PostfixExpr.alternativesOfList_append as bs]

theorem arrayBrackets_succ : ∀ n : Nat, arrayBrackets (n + 1) = arrayBrackets n ++ ['[', ']']
  | 0 => rfl
  | n + 1 => congrArg ('[' :: ']' :: ·) (arrayBrackets_succ n)

/-- A name of the grammar stands for itself. -/
theorem spells_name {name : String} (hname : IsTypeName name) : Spells name [.named name] := by
  refine ⟨.mk (.mk (.name ⟨name, hname⟩) 0) [], ?_, ?_⟩
  · simp [UnionExpr.characters, PostfixExpr.characters, PrimaryExpr.characters,
      PostfixExpr.charactersAfter, arrayBrackets]
  · simp [UnionExpr.alternatives, PostfixExpr.alternatives, PrimaryExpr.alternatives,
      PostfixExpr.alternativesOfList, TypeShape.arrays]

/-- Texts with a bar between them mean the alternatives of both. -/
theorem Spells.bar {a b : String} {m n : List TypeShape} (ha : Spells a m) (hb : Spells b n) :
    Spells (a ++ " | " ++ b) (m ++ n) := by
  obtain ⟨⟨x, xs⟩, hxtext, rfl⟩ := ha
  obtain ⟨⟨y, ys⟩, hytext, rfl⟩ := hb
  have hbar : " | ".toList = [' ', '|', ' '] := by decide
  refine ⟨.mk x (xs ++ y :: ys), ?_, ?_⟩
  · rw [String.toList_append, String.toList_append, ← hxtext, ← hytext, hbar]
    simp [UnionExpr.characters, PostfixExpr.charactersAfter_append, PostfixExpr.charactersAfter]
  · simp [UnionExpr.alternatives, PostfixExpr.alternativesOfList_append,
      PostfixExpr.alternativesOfList]

/-- Texts with bars between them mean the alternatives of all. -/
theorem spells_bars {texts : List String} {meanings : List (List TypeShape)}
    (h : List.Forall₂ Spells texts meanings) (hne : texts ≠ []) :
    Spells (" | ".intercalate texts) meanings.flatten := by
  induction h with
  | nil => exact absurd rfl hne
  | cons hfirst hrest ih =>
    cases hrest with
    | nil => simpa using hfirst
    | cons hsecond hothers =>
      rw [String.intercalate_cons_cons]
      exact hfirst.bar (ih (by simp))

/-- A text without a space has no alternative but its first, so brackets behind it are the array of all
that it means; any other text stands in parentheses. -/
theorem Spells.arrayText {item : String} {m : List TypeShape} (h : Spells item m) :
    Spells (arrayText item) [.array m] := by
  obtain ⟨⟨⟨base, n⟩, others⟩, htext, rfl⟩ := h
  rw [IdlDecls.arrayText]
  by_cases hspace : ' ' ∈ item.toList
  · rw [if_pos (by simpa using hspace)]
    refine ⟨.mk (.mk (.group (.mk (.mk base n) others)) 1) [], ?_, ?_⟩
    · simp [UnionExpr.characters, PostfixExpr.characters, PrimaryExpr.characters,
        PostfixExpr.charactersAfter, arrayBrackets, ← htext]
    · simp [UnionExpr.alternatives, PostfixExpr.alternatives, PrimaryExpr.alternatives,
        PostfixExpr.alternativesOfList, TypeShape.arrays]
  · rw [if_neg (by simpa using hspace)]
    have hothers : others = [] := by
      cases others with
      | nil => rfl
      | cons e rest =>
        exact absurd (by simp [← htext, UnionExpr.characters, PostfixExpr.charactersAfter]) hspace
    subst hothers
    refine ⟨.mk (.mk base (n + 1)) [], ?_, ?_⟩
    · rw [String.toList_append, ← htext]
      simp [UnionExpr.characters, PostfixExpr.characters, PostfixExpr.charactersAfter,
        arrayBrackets_succ]
    · simp [UnionExpr.alternatives, PostfixExpr.alternatives, PostfixExpr.alternativesOfList,
        TypeShape.arrays]

/-- Texts with commas in front of them are further arguments. -/
theorem exists_arguments {texts : List String} {meanings : List (List TypeShape)}
    (h : List.Forall₂ Spells texts meanings) : ∃ es : List UnionExpr,
      UnionExpr.charactersAfter es = (String.join (texts.map (", " ++ ·))).toList ∧
        UnionExpr.alternativesOfList es = meanings := by
  induction h with
  | nil => exact ⟨[], rfl, rfl⟩
  | cons hfirst _ ih =>
    obtain ⟨e, htext, rfl⟩ := hfirst
    obtain ⟨es, htexts, rfl⟩ := ih
    refine ⟨e :: es, ?_, rfl⟩
    rw [List.map_cons, String.join_cons, String.toList_append, String.toList_append, ← htext,
      ← htexts]
    rfl

/-- A name in front of texts in angle brackets is applied to what they mean. -/
theorem spells_apply {name first : String} {others : List String} {m : List TypeShape}
    {ms : List (List TypeShape)} (hname : IsTypeName name) (hfirst : Spells first m)
    (hothers : List.Forall₂ Spells others ms) :
    Spells (name ++ "<" ++ first ++ String.join (others.map (", " ++ ·)) ++ ">")
      [.applied name (m :: ms)] := by
  obtain ⟨e, htext, rfl⟩ := hfirst
  obtain ⟨es, htexts, rfl⟩ := exists_arguments hothers
  refine ⟨.mk (.mk (.apply ⟨name, hname⟩ e es) 0) [], ?_, ?_⟩
  · simp only [String.toList_append, ← htext, ← htexts]
    simp [UnionExpr.characters, PostfixExpr.characters, PrimaryExpr.characters,
      PostfixExpr.charactersAfter, arrayBrackets]
  · simp [UnionExpr.alternatives, PostfixExpr.alternatives, PrimaryExpr.alternatives,
      PostfixExpr.alternativesOfList, TypeShape.arrays]

/-! ## The texts of references -/

/-- The text of an argument means the argument, and `any` stands for one that is missing. -/
theorem spells_argument {texts : List String} {meanings : List (List TypeShape)}
    (h : List.Forall₂ Spells texts meanings) (i : Nat) :
    Spells (texts[i]?.getD "any") (meanings[i]?.getD [.named "any"]) := by
  induction h generalizing i with
  | nil => exact spells_name (by decide : IsTypeName "any")
  | cons hfirst _ ih =>
    cases i with
    | zero => exact hfirst
    | succ i => simpa using ih i

/-- The names that primitive names are mapped to. -/
theorem mem_of_primitiveName?_eq_some {name mapped : String} (h : primitiveName? name = some mapped) :
    mapped ∈ ["string", "boolean", "number", "bigint", "any", "void"] := by
  rw [primitiveName?] at h
  repeat' (split at h)
  all_goals simp_all

/-- Primitive names are mapped to names of the grammar. -/
theorem spells_primitive {name mapped : String} (h : primitiveName? name = some mapped) :
    Spells mapped [.named mapped] := by
  have hnames : ∀ word ∈ ["string", "boolean", "number", "bigint", "any", "void"],
      IsTypeName word := by decide
  exact spells_name (hnames mapped (mem_of_primitiveName?_eq_some h))

theorem spells_genericText {name : String} {texts : List String} {meanings : List (List TypeShape)}
    (hname : LegibleName name) (h : List.Forall₂ Spells texts meanings) :
    Spells (genericText name texts) [TypeShape.ofName name meanings] := by
  have hfirst := spells_argument h 0
  have hsecond := spells_argument h 1
  by_cases hsequence : name = "sequence"
  · simpa [genericText, TypeShape.ofName, hsequence] using hfirst.arrayText
  by_cases hfrozen : name = "FrozenArray" ∨ name = "ObservableArray"
  · have hspells := spells_apply (by decide : IsTypeName "ReadonlyArray") hfirst .nil
    simpa [genericText, TypeShape.ofName, hsequence, hfrozen] using hspells
  by_cases hpromise : name = "Promise"
  · have hspells := spells_apply (by decide : IsTypeName "Promise") hfirst .nil
    simpa [genericText, TypeShape.ofName, hpromise] using hspells
  by_cases hrecord : name = "record"
  · have hspells := spells_apply (by decide : IsTypeName "Record") hfirst (.cons hsecond .nil)
    simpa [genericText, TypeShape.ofName, hrecord, String.append_assoc] using hspells
  · cases hprimitive : primitiveName? name with
    | some mapped =>
      simpa [genericText, TypeShape.ofName, hsequence, hfrozen, hpromise, hrecord, hprimitive]
        using spells_primitive hprimitive
    | none =>
      have hmapped : ¬ IsMappedName name := by
        simp_all [IsMappedName]
      simpa [genericText, TypeShape.ofName, hsequence, hfrozen, hpromise, hrecord, hprimitive]
        using spells_name (hname.resolve_left hmapped)

/-- A nullable text means null as well. -/
theorem Spells.nullableText {base : String} {m : List TypeShape} (h : Spells base m)
    (nullable : Option Bool) : Spells (nullableText nullable base)
      (m ++ if nullable.getD false then [.named "null"] else []) := by
  have hbar : base ++ " | null" = base ++ " | " ++ "null" := by
    rw [String.append_assoc]
    rfl
  rw [IdlDecls.nullableText, hbar]
  split
  · exact h.bar (spells_name (by decide))
  · simpa using h

theorem TypeRef.textsOfList_ne_nil {members : List TypeRef} (h : members ≠ []) :
    TypeRef.textsOfList members ≠ [] := by
  cases members with
  | nil => exact absurd rfl h
  | cons t rest => simp [TypeRef.textsOfList]

mutual

/-- The text of a legible reference has a parse that means what the reference means. -/
theorem TypeRef.spells : (t : TypeRef) → t.Legible → Spells t.text t.alternatives
  | .mk none arguments nullable, _ => by
    rw [TypeRef.text, TypeRef.alternatives]
    exact (spells_name (by decide)).nullableText nullable
  | .mk (some head) none nullable, h => by
    rw [TypeRef.text, TypeRef.alternatives]
    exact (head.spells h.1 .nil).nullableText nullable
  | .mk (some head) (some arguments) nullable, h => by
    rw [TypeRef.text, TypeRef.alternatives]
    exact (head.spells h.1 (arguments.spells h.2)).nullableText nullable

/-- The text of a head means the head, if those of its arguments mean the arguments. -/
theorem TypeHead.spells {texts : List String} {meanings : List (List TypeShape)} :
    (head : TypeHead) → head.Legible → List.Forall₂ Spells texts meanings →
      Spells (head.text texts) (head.alternatives meanings)
  | .named name, h, harguments => by
    rw [TypeHead.text, TypeHead.alternatives]
    exact spells_genericText h harguments
  | .union members, h, _ => by
    rw [TypeHead.text, TypeHead.alternatives]
    exact spells_bars (TypeRef.spells_ofList members h.2) (TypeRef.textsOfList_ne_nil h.1)

/-- The texts of generic arguments mean the arguments. -/
theorem TypeArguments.spells : (arguments : TypeArguments) → arguments.Legible →
    List.Forall₂ Spells arguments.texts arguments.alternatives
  | .many types, h => TypeRef.spells_ofList types h
  | .one type, h => .cons (type.spells h) .nil

/-- The texts of references mean the references one by one. -/
theorem TypeRef.spells_ofList : (types : List TypeRef) → TypeRef.AllLegible types →
    List.Forall₂ Spells (TypeRef.textsOfList types) (TypeRef.alternativesOfList types)
  | [], _ => .nil
  | t :: rest, h => .cons (t.spells h.1) (TypeRef.spells_ofList rest h.2)

end

/-- **A type text is unambiguous.** The text of a reference in which every union has members and every
name is mapped or a name of the grammar is read by the grammar in one way only, and read so it means what
the reference means. -/
theorem TypeRef.text_unambiguous {t : TypeRef} (ht : t.Legible) :
    ∃ e : UnionExpr, e.characters = t.text.toList ∧ e.alternatives = t.alternatives ∧
      ∀ other : UnionExpr, other.characters = t.text.toList → other = e := by
  obtain ⟨e, htext, hmeaning⟩ := t.spells ht
  exact ⟨e, htext, hmeaning, fun other hother =>
    UnionExpr.characters_injective (hother.trans htext.symm)⟩

/-- Legible references with one text mean the same. -/
theorem TypeRef.alternatives_eq_of_text_eq {t u : TypeRef} (ht : t.Legible) (hu : u.Legible)
    (h : t.text = u.text) : t.alternatives = u.alternatives := by
  obtain ⟨e, htext, hmeaning⟩ := t.spells ht
  obtain ⟨e', htext', hmeaning'⟩ := u.spells hu
  rw [← h] at htext'
  rw [← hmeaning, ← hmeaning', UnionExpr.characters_injective (htext.trans htext'.symm)]

/-- A record of arrays whose items are nodes, numbers or null, or no record. -/
def nestedRef : TypeRef :=
  ⟨some (.named "record"), some (.many [
      ⟨some (.named "DOMString"), none, none⟩,
      ⟨some (.named "sequence"), some (.one
        ⟨some (.union [⟨some (.named "Node"), none, none⟩,
            ⟨some (.named "unsigned short"), none, none⟩]), none, some true⟩), none⟩]),
    some true⟩

/-- Its arrays have three alternatives for an item, and null stands beside the record. -/
theorem nestedRef_text_unambiguous :
    nestedRef.Legible ∧ nestedRef.text = "Record<string, (Node | number | null)[]> | null" ∧
      ∃ e : UnionExpr, e.characters = nestedRef.text.toList ∧
        e.alternatives = [.applied "Record" [[.named "string"],
          [.array [.named "Node", .named "number", .named "null"]]], .named "null"] ∧
        ∀ other : UnionExpr, other.characters = nestedRef.text.toList → other = e := by
  have hnames : ∀ name ∈ ["record", "DOMString", "sequence", "Node", "unsigned short"],
      LegibleName name := by decide
  have hlegible : nestedRef.Legible := by
    simp [nestedRef, TypeRef.Legible, TypeHead.Legible, TypeArguments.Legible, TypeRef.AllLegible,
      hnames]
  obtain ⟨e, htext, hmeaning, honly⟩ := TypeRef.text_unambiguous hlegible
  exact ⟨hlegible, by decide +kernel, e, htext, hmeaning.trans rfl, honly⟩

end IdlDecls
