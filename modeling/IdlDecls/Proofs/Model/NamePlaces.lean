import Mathlib.Data.List.Lex
import Mathlib.Data.List.Sort
import IdlDecls.Model.TypeRef

/-!
# Where names stand in a type

A reference has parts: the members of its union and its generic arguments, which are references with
parts of their own. A place is the list of steps that lead from a reference to a part at some depth.
Places are in pre-order: a place comes before those inside it, and members with all that is in them come
before arguments. There is one list of the names at all places in this order
(`TypeRef.ListsNames.unique`), and the names of a reference are those of this list
(`TypeRef.existsUnique_listsNames`).
-/

namespace IdlDecls

/-! ## Parts of a reference -/

namespace TypeRef

/-- The name that a reference has itself. -/
def ownName? (t : TypeRef) : Option String :=
  match t.head with
  | some (.named name) => some name
  | _ => none

/-- The members of the union that a reference refers to. -/
def memberList (t : TypeRef) : List TypeRef :=
  match t.head with
  | some (.union members) => members
  | _ => []

end TypeRef

mutual

/-- **Induction on parts**: what holds of a reference if it holds of its members and its arguments holds
of every reference. -/
theorem TypeRef.parts_induction {P : TypeRef → Prop}
    (h : ∀ t : TypeRef, (∀ m ∈ t.memberList, P m) → (∀ a ∈ t.argumentList, P a) → P t) :
    ∀ t : TypeRef, P t
  | .mk none none _ => h _ nofun nofun
  | .mk (some head) none _ => h _ (TypeHead.parts_induction h head) nofun
  | .mk none (some arguments) _ => h _ nofun (TypeArguments.parts_induction h arguments)
  | .mk (some head) (some arguments) _ =>
    h _ (TypeHead.parts_induction h head) (TypeArguments.parts_induction h arguments)

theorem TypeHead.parts_induction {P : TypeRef → Prop}
    (h : ∀ t : TypeRef, (∀ m ∈ t.memberList, P m) → (∀ a ∈ t.argumentList, P a) → P t)
    {arguments : Option TypeArguments} {nullable : Option Bool} :
    ∀ head : TypeHead, ∀ m ∈ (TypeRef.mk (some head) arguments nullable).memberList, P m
  | .named _ => nofun
  | .union members => TypeRef.parts_induction_list h members

theorem TypeArguments.parts_induction {P : TypeRef → Prop}
    (h : ∀ t : TypeRef, (∀ m ∈ t.memberList, P m) → (∀ a ∈ t.argumentList, P a) → P t) :
    ∀ arguments : TypeArguments, ∀ a ∈ arguments.toList, P a
  | .many types => TypeRef.parts_induction_list h types
  | .one type => List.forall_mem_singleton.2 (TypeRef.parts_induction h type)

theorem TypeRef.parts_induction_list {P : TypeRef → Prop}
    (h : ∀ t : TypeRef, (∀ m ∈ t.memberList, P m) → (∀ a ∈ t.argumentList, P a) → P t) :
    ∀ types : List TypeRef, ∀ t ∈ types, P t
  | [] => nofun
  | t :: rest => List.forall_mem_cons.2
      ⟨TypeRef.parts_induction h t, TypeRef.parts_induction_list h rest⟩

end

theorem TypeRef.namesOfList_eq : ∀ types : List TypeRef,
    TypeRef.namesOfList types = types.flatMap TypeRef.names
  | [] => rfl
  | t :: rest => by rw [TypeRef.namesOfList, TypeRef.namesOfList_eq rest, List.flatMap_cons]

/-- The names of a reference are its own, those of its members and those of its arguments. -/
theorem TypeRef.names_eq (t : TypeRef) : t.names =
    t.ownName?.toList ++ t.memberList.flatMap TypeRef.names ++
      t.argumentList.flatMap TypeRef.names := by
  rcases t with ⟨_ | (name | members), _ | (types | type), nullable⟩ <;>
    simp [names.eq_def, TypeHead.names, TypeArguments.names, namesOfList_eq, ownName?, memberList,
      argumentList, head, arguments, TypeArguments.toList]

/-! ## Places -/

/-- A step from a reference to one of its parts. -/
inductive TypeStep where
  | member (index : Nat)
  | argument (index : Nat)
deriving DecidableEq, Repr

/-- The parts of a reference come in their order, and members before arguments. -/
def TypeStep.Before : TypeStep → TypeStep → Prop
  | .member i, .member j | .argument i, .argument j => i < j
  | .member _, .argument _ => True
  | .argument _, .member _ => False

instance : Std.Asymm TypeStep.Before where
  asymm a b hab hba := by
    cases a <;> cases b <;> simp only [TypeStep.Before] at hab hba <;> omega

/-- The steps that lead from a reference to a part of it, however deep. -/
abbrev TypePlace := List TypeStep

/-- Pre-order: a place comes before those inside it, and places in different parts come as these do. -/
abbrev TypePlace.Before : TypePlace → TypePlace → Prop := List.Lex TypeStep.Before

namespace TypeRef

/-- The part that a step leads to. -/
def part? (t : TypeRef) : TypeStep → Option TypeRef
  | .member index => t.memberList[index]?
  | .argument index => t.argumentList[index]?

/-- The part at a place. -/
def at? (t : TypeRef) : TypePlace → Option TypeRef
  | [] => some t
  | step :: place => (t.part? step).bind (·.at? place)

/-- The name at a place: that of the part there, if it has one itself. -/
def nameAt? (t : TypeRef) (place : TypePlace) : Option String :=
  (t.at? place).bind ownName?

/-- A list of the names at all places of a reference, each place once and in pre-order. -/
structure ListsNames (t : TypeRef) (listed : List (TypePlace × String)) : Prop where
  ascending : listed.Pairwise fun a b => TypePlace.Before a.1 b.1
  complete : ∀ place name, (place, name) ∈ listed ↔ t.nameAt? place = some name

theorem nameAt?_nil (t : TypeRef) : t.nameAt? [] = t.ownName? := rfl

theorem nameAt?_cons (t : TypeRef) (step : TypeStep) (place : TypePlace) :
    t.nameAt? (step :: place) = (t.part? step).bind (·.nameAt? place) := by
  rw [nameAt?, at?, Option.bind_assoc]
  rfl

/-- **At most one list** has all names. -/
theorem ListsNames.unique {t : TypeRef} {listed listed' : List (TypePlace × String)}
    (h : t.ListsNames listed) (h' : t.ListsNames listed') : listed = listed' := by
  have hasymm : ∀ {p q : TypePlace}, p.Before q → ¬ q.Before p := fun {p q} =>
    Std.Asymm.asymm (r := TypePlace.Before) p q
  have hirrefl : Std.Irrefl fun a b : TypePlace × String => TypePlace.Before a.1 b.1 :=
    ⟨fun _ hself => hasymm hself hself⟩
  have hantisymm : Std.Antisymm fun a b : TypePlace × String => TypePlace.Before a.1 b.1 :=
    ⟨fun _ _ hab hba => absurd hba (hasymm hab)⟩
  exact h.ascending.eq_of_mem_iff h'.ascending fun ⟨place, name⟩ =>
    (h.complete place name).trans (h'.complete place name).symm

/-! ## Listing -/

/-- What is listed of a part stands inside it. -/
def behind (step : TypeStep) (e : TypePlace × String) : TypePlace × String :=
  (step :: e.1, e.2)

/-- The names of parts, one part after another. The parts are numbered from `start` on. -/
theorem exists_listed_parts (step : Nat → TypeStep)
    (hstep : ∀ i j, i < j → (step i).Before (step j)) (parts : List TypeRef)
    (hparts : ∀ m ∈ parts, ∃ listed, m.ListsNames listed ∧ m.names = listed.map Prod.snd)
    (start : Nat) : ∃ listed : List (TypePlace × String),
      listed.Pairwise (fun a b => TypePlace.Before a.1 b.1) ∧
      (∀ place name, (place, name) ∈ listed ↔ ∃ i m inner, parts[i]? = some m ∧
        place = step (start + i) :: inner ∧ m.nameAt? inner = some name) ∧
      parts.flatMap names = listed.map Prod.snd := by
  induction parts generalizing start with
  | nil => exact ⟨[], .nil, by simp, rfl⟩
  | cons m rest ih =>
    obtain ⟨first, hfirst, hnames⟩ := hparts m (List.mem_cons_self ..)
    obtain ⟨others, hasc, hothers, hrest⟩ :=
      ih (fun n hn => hparts n (List.mem_cons_of_mem _ hn)) (start + 1)
    refine ⟨first.map (behind (step start)) ++ others, ?_, fun place name => ?_, ?_⟩
    · rw [List.pairwise_append, List.pairwise_map]
      refine ⟨hfirst.ascending.imp fun hbefore => .cons hbefore, hasc, ?_⟩
      rintro _ ha ⟨place, name⟩ hb
      obtain ⟨e, -, rfl⟩ := List.mem_map.1 ha
      obtain ⟨i, n, inner, -, rfl, -⟩ := (hothers place name).1 hb
      exact .rel (hstep _ _ (by omega))
    · rw [List.mem_append, List.mem_map, hothers]
      constructor
      · rintro (⟨⟨inner, own⟩, he, heq⟩ | ⟨i, n, inner, hn, rfl, hname⟩)
        · cases heq
          exact ⟨0, m, inner, rfl, rfl, (hfirst.complete inner _).1 he⟩
        · exact ⟨i + 1, n, inner, hn, by rw [show start + 1 + i = start + (i + 1) by omega], hname⟩
      · rintro ⟨i, n, inner, hn, rfl, hname⟩
        cases i with
        | zero =>
          obtain rfl : m = n := Option.some.inj hn
          exact Or.inl ⟨(inner, name), (hfirst.complete inner name).2 hname, rfl⟩
        | succ i =>
          exact Or.inr ⟨i, n, inner, hn, by rw [show start + 1 + i = start + (i + 1) by omega], hname⟩
    · rw [List.flatMap_cons, hnames, hrest, List.map_append, List.map_map]
      rfl

/-- The names of a reference are those at all its places, in pre-order. -/
theorem exists_listsNames (t : TypeRef) :
    ∃ listed, t.ListsNames listed ∧ t.names = listed.map Prod.snd := by
  induction t using parts_induction with
  | h t hmembers harguments =>
    obtain ⟨members, hmasc, hmcomplete, hmnames⟩ :=
      exists_listed_parts .member (fun _ _ h => h) t.memberList hmembers 0
    obtain ⟨arguments, haasc, hacomplete, hanames⟩ :=
      exists_listed_parts .argument (fun _ _ h => h) t.argumentList harguments 0
    refine ⟨t.ownName?.toList.map (fun name => ([], name)) ++ members ++ arguments, ⟨?_, ?_⟩, ?_⟩
    · rw [List.pairwise_append, List.pairwise_append]
      refine ⟨⟨?_, hmasc, ?_⟩, haasc, ?_⟩
      · cases t.ownName? <;> simp
      · rintro _ ha ⟨place, name⟩ hb
        obtain ⟨name, -, rfl⟩ := List.mem_map.1 ha
        obtain ⟨i, m, inner, -, rfl, -⟩ := (hmcomplete _ _).1 hb
        exact .nil
      · rintro ⟨before, _⟩ hbefore ⟨behind, _⟩ hbehind
        obtain ⟨j, a, inArgument, -, rfl, -⟩ := (hacomplete _ _).1 hbehind
        rcases List.mem_append.1 hbefore with hown | hmember
        · obtain ⟨name, -, heq⟩ := List.mem_map.1 hown
          cases heq
          exact .nil
        · obtain ⟨i, m, inMember, -, rfl, -⟩ := (hmcomplete _ _).1 hmember
          exact .rel trivial
    · intro place name
      rw [List.mem_append, List.mem_append, List.mem_map, hmcomplete, hacomplete]
      cases place with
      | nil => simp [nameAt?_nil]
      | cons step inner =>
        cases step with
        | member i => simp [nameAt?_cons, part?, Option.bind_eq_some_iff]
        | argument i => simp [nameAt?_cons, part?, Option.bind_eq_some_iff]
    · rw [names_eq, hmnames, hanames, List.map_append, List.map_append, List.map_map]
      simp [Function.comp_def]

/-- **The names of a reference are those of the one list** that has the names at all its places. -/
theorem existsUnique_listsNames (t : TypeRef) :
    ∃! listed, t.ListsNames listed ∧ t.names = listed.map Prod.snd := by
  obtain ⟨listed, hlists, hnames⟩ := t.exists_listsNames
  exact ⟨listed, ⟨hlists, hnames⟩, fun other hother => hother.1.unique hlists⟩

end TypeRef

end IdlDecls
