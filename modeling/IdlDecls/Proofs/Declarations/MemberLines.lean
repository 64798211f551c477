import Mathlib.Data.List.Sort
import IdlDecls.Declarations.Block
import IdlDecls.Proofs.Keyed.Joined

/-!
# The lines of a block

A block of a declaration file is its heading, its closing, and between them the lines of its members,
each behind its documentation. A line belongs to a place: the kind of its member, the key under which the
member stands and the number of the overload. Lines enumerate what is declared if their places ascend and
they are exactly what is declared (`Enumerates`); there is one such list (`Enumerates.unique`), so nothing
is left out, doubled or moved. The items of a block enumerate the lines of their members, one kind of
member after another (`Enumerates.append`) and within a kind one key after another
(`enumerates_memberLines`).
-/

namespace IdlDecls

/-! ## Places -/

/-- The place of a line in a block. -/
inductive MemberSlot where
  | constructor (overload : Nat)
  | constant (key : String)
  | property (key : String)
  | method (key : String) (overload : Nat)
deriving DecidableEq, Repr

namespace MemberSlot

/-- The rank of the kind of a member. -/
def kind : MemberSlot → Nat
  | .constructor _ => 0
  | .constant _ => 1
  | .property _ => 2
  | .method _ _ => 3

/-- The key of a member; constructors have none. -/
def key : MemberSlot → String
  | .constructor _ => ""
  | .constant key | .property key | .method key _ => key

/-- The number of the overload. -/
def overload : MemberSlot → Nat
  | .constructor n | .method _ n => n
  | .constant _ | .property _ => 0

/-- The order of a block: constructors, constants, properties and methods, within a kind by keys, and the
overloads of a member as they come. -/
def Before (a b : MemberSlot) : Prop :=
  a.kind < b.kind ∨ a.kind = b.kind ∧ (a.key < b.key ∨ a.key = b.key ∧ a.overload < b.overload)

theorem not_before_self (a : MemberSlot) : ¬ a.Before a := by
  rintro (hkind | ⟨-, hkey | ⟨-, hoverload⟩⟩)
  · exact Nat.lt_irrefl _ hkind
  · exact String.lt_irrefl _ hkey
  · exact Nat.lt_irrefl _ hoverload

theorem Before.asymm {a b : MemberSlot} (h : a.Before b) : ¬ b.Before a := by
  rintro (hkind | ⟨hkind, hkey | ⟨hkey, hoverload⟩⟩)
  · rcases h with hlt | ⟨heq, -⟩ <;> omega
  · rcases h with hlt | ⟨-, hlt | ⟨heq, -⟩⟩
    · omega
    · exact String.lt_irrefl _ (String.lt_trans hkey hlt)
    · exact String.lt_irrefl _ (heq ▸ hkey)
  · rcases h with hlt | ⟨-, hlt | ⟨-, hlt⟩⟩
    · omega
    · exact String.lt_irrefl _ (hkey ▸ hlt)
    · omega

end MemberSlot

/-! ## Lines -/

/-- A line of a block with the documentation in front of it. -/
structure MemberLine where
  slot : MemberSlot
  doc : List String := []
  line : String
deriving DecidableEq, Repr

open Declaration in
/-- The line as it stands in a file. -/
def MemberLine.text (l : MemberLine) : String :=
  docText indentation l.doc ++ indentation ++ l.line ++ ";\n"

/-- Lines are what is declared, each once and in order. -/
structure Enumerates (declared : MemberLine → Prop) (lines : List MemberLine) : Prop where
  ascending : lines.Pairwise fun a b => a.slot.Before b.slot
  complete : ∀ l, l ∈ lines ↔ declared l

namespace Enumerates

variable {declared declared' : MemberLine → Prop} {lines lines' : List MemberLine}

/-- **At most one list** is an enumeration of what is declared. -/
theorem unique (h : Enumerates declared lines) (h' : Enumerates declared lines') :
    lines = lines' := by
  have hirrefl : Std.Irrefl fun a b : MemberLine => a.slot.Before b.slot :=
    ⟨fun a => a.slot.not_before_self⟩
  have hantisymm : Std.Antisymm fun a b : MemberLine => a.slot.Before b.slot :=
    ⟨fun _ _ hab hba => absurd hba hab.asymm⟩
  exact h.ascending.eq_of_mem_iff h'.ascending fun l => (h.complete l).trans (h'.complete l).symm

/-- No place has two lines. -/
theorem nodup (h : Enumerates declared lines) : (lines.map MemberLine.slot).Nodup := by
  rw [List.Nodup, List.pairwise_map]
  refine h.ascending.imp fun {a b} hbefore heq => ?_
  rw [heq] at hbefore
  exact b.slot.not_before_self hbefore

/-- The places of the lines. -/
theorem mem_map_slot (h : Enumerates declared lines) {slot : MemberSlot} :
    slot ∈ lines.map MemberLine.slot ↔ ∃ l, declared l ∧ l.slot = slot := by
  simp only [List.mem_map, h.complete]

theorem congr (h : Enumerates declared lines) (hiff : ∀ l, declared l ↔ declared' l) :
    Enumerates declared' lines :=
  ⟨h.ascending, fun l => (h.complete l).trans (hiff l)⟩

theorem nil : Enumerates (fun _ => False) [] :=
  ⟨.nil, by simp⟩

/-- One kind of member after another. -/
theorem append (h : Enumerates declared lines) (h' : Enumerates declared' lines')
    (hkinds : ∀ l l', declared l → declared' l' → l.slot.kind < l'.slot.kind) :
    Enumerates (fun l => declared l ∨ declared' l) (lines ++ lines') := by
  refine ⟨List.pairwise_append.2 ⟨h.ascending, h'.ascending, fun l hl l' hl' => ?_⟩, fun l => ?_⟩
  · exact Or.inl (hkinds l l' ((h.complete l).1 hl) ((h'.complete l').1 hl'))
  · rw [List.mem_append, h.complete, h'.complete]

end Enumerates

/-! ## Items -/

/-- The lines of an item, with its documentation in front of the first of them. -/
def itemLines (slot : Nat → MemberSlot) (item : Item) : List MemberLine :=
  item.lines.zipIdx.map fun e => ⟨slot e.2, if e.2 = 0 then item.doc else [], e.1⟩

/-- A line of an item. -/
def IsItemLine (slot : Nat → MemberSlot) (item : Item) (l : MemberLine) : Prop :=
  ∃ n line, item.lines[n]? = some line ∧ l = ⟨slot n, if n = 0 then item.doc else [], line⟩

theorem mem_itemLines {slot : Nat → MemberSlot} {item : Item} {l : MemberLine} :
    l ∈ itemLines slot item ↔ IsItemLine slot item l := by
  simp only [itemLines, IsItemLine, List.mem_map, Prod.exists, List.mem_zipIdx_iff_getElem?]
  constructor
  · rintro ⟨line, n, hline, rfl⟩
    exact ⟨n, line, hline, rfl⟩
  · rintro ⟨n, line, hline, rfl⟩
    exact ⟨line, n, hline, rfl⟩

/-- An item of one line has that line. -/
theorem isItemLine_singleton {slot : Nat → MemberSlot} {doc : List String} {line : String}
    {l : MemberLine} : IsItemLine slot ⟨doc, [line]⟩ l ↔ l = ⟨slot 0, doc, line⟩ := by
  constructor
  · rintro ⟨_ | n, _, ⟨⟩, rfl⟩
    rfl
  · rintro rfl
    exact ⟨0, line, rfl, rfl⟩

/-- The lines of an item enumerate it, if their places ascend. -/
theorem enumerates_itemLines {slot : Nat → MemberSlot} {item : Item}
    (hslot : ∀ m n, m < n → n < item.lines.length → (slot m).Before (slot n)) :
    Enumerates (IsItemLine slot item) (itemLines slot item) := by
  refine ⟨?_, fun l => mem_itemLines⟩
  rw [itemLines, List.pairwise_map, List.pairwise_iff_getElem]
  intro m n hm hn hlt
  simp only [List.getElem_zipIdx, Nat.zero_add]
  exact hslot m n hlt (by simpa using hn)

open Declaration in
/-- Behind the first line of an item no line has documentation. -/
theorem join_map_text_of_ne_zero (slot : Nat → MemberSlot) (doc lines : List String) {n : Nat}
    (hn : n ≠ 0) :
    String.join (((lines.zipIdx n).map fun e =>
        (⟨slot e.2, if e.2 = 0 then doc else [], e.1⟩ : MemberLine)).map MemberLine.text) =
      String.join (lines.map fun line => indentation ++ line ++ ";\n") := by
  induction lines generalizing n with
  | nil => rfl
  | cons line rest ih =>
    rw [List.zipIdx_cons, List.map_cons, List.map_cons, String.join_cons, ih (Nat.succ_ne_zero n)]
    simp [MemberLine.text, docText, hn]

open Declaration in
/-- An item is the text of its lines. Only an item without lines can have lost its documentation. -/
theorem itemText_eq_join (slot : Nat → MemberSlot) {item : Item}
    (h : item.lines ≠ [] ∨ item.doc = []) :
    itemText item = String.join ((itemLines slot item).map MemberLine.text) := by
  obtain ⟨doc, lines⟩ := item
  cases lines with
  | nil =>
    obtain rfl : doc = [] := h.resolve_left (· rfl)
    rfl
  | cons line rest =>
    rw [itemText, itemLines, List.zipIdx_cons, List.map_cons, List.map_cons, String.join_cons,
      List.map_cons, String.join_cons, join_map_text_of_ne_zero slot doc rest (Nat.succ_ne_zero 0)]
    simp [MemberLine.text, String.append_assoc]

/-! ## Entries -/

/-- The entries of a collection that may be left out, in the order of their keys. -/
def entriesOf {α : Type} (c : Option (Keyed α)) : List (String × α) :=
  match c with
  | none => []
  | some m => m.entries

section Entries

variable {α : Type} {c : Option (Keyed α)}

theorem valuesOf_eq_map_entriesOf : valuesOf c = (entriesOf c).map (·.2) := by
  cases c <;> rfl

theorem ascending_entriesOf : Entries.Ascending (entriesOf c) := by
  cases c with
  | none => exact .nil
  | some m => exact m.ascending

theorem mem_entriesOf {key : String} {value : α} :
    (key, value) ∈ entriesOf c ↔ lookup? c key = some value := by
  cases c with
  | none => simp [entriesOf, lookup?]
  | some m => exact Keyed.get?_eq_some_iff_mem.symm

end Entries

/-- The lines of members of one kind, one key after another. -/
def memberLines {α : Type} (slot : String → Nat → MemberSlot) (item : α → Item)
    (entries : List (String × α)) : List MemberLine :=
  entries.flatMap fun e => itemLines (slot e.1) (item e.2)

section Members

variable {α : Type} {slot : String → Nat → MemberSlot} {item : α → Item}
  {entries : List (String × α)}

/-- The lines of members enumerate them, if the members stand in the order of their keys. -/
theorem enumerates_memberLines (hentries : Entries.Ascending entries) {kind : Nat}
    (hkey : ∀ key n, (slot key n).kind = kind ∧ (slot key n).key = key)
    (hslot : ∀ key value m n, m < n → n < (item value).lines.length →
      (slot key m).Before (slot key n)) :
    Enumerates
      (fun l => ∃ key value, (key, value) ∈ entries ∧ IsItemLine (slot key) (item value) l)
      (memberLines slot item entries) := by
  refine ⟨List.pairwise_flatMap.2 ⟨fun e _ => (enumerates_itemLines (hslot e.1 e.2)).ascending, ?_⟩,
    fun l => ?_⟩
  · refine List.Pairwise.imp (fun {e e'} hlt l hl l' hl' => ?_) hentries
    obtain ⟨n, _, -, rfl⟩ := mem_itemLines.1 hl
    obtain ⟨n', _, -, rfl⟩ := mem_itemLines.1 hl'
    obtain ⟨hkind, hkey₁⟩ := hkey e.1 n
    obtain ⟨hkind', hkey₂⟩ := hkey e'.1 n'
    exact Or.inr ⟨hkind.trans hkind'.symm, Or.inl (by rw [hkey₁, hkey₂]; exact hlt)⟩
  · simp only [memberLines, List.mem_flatMap, Prod.exists, mem_itemLines]

/-- Members with a line each have no second place. -/
theorem enumerates_memberLines_of_single (hentries : Entries.Ascending entries) {kind : Nat}
    (hkey : ∀ key n, (slot key n).kind = kind ∧ (slot key n).key = key)
    (hsingle : ∀ value, (item value).lines.length = 1) :
    Enumerates
      (fun l => ∃ key value, (key, value) ∈ entries ∧ IsItemLine (slot key) (item value) l)
      (memberLines slot item entries) :=
  enumerates_memberLines hentries hkey fun key value m n hlt hn => by
    rw [hsingle] at hn
    omega

open Declaration in
/-- The items of members are the text of their lines. -/
theorem join_map_itemText (hitem : ∀ value, (item value).lines ≠ [] ∨ (item value).doc = []) :
    String.join (((entries.map (·.2)).map item).map itemText) =
      String.join ((memberLines slot item entries).map MemberLine.text) := by
  induction entries with
  | nil => rfl
  | cons e rest ih =>
    rw [memberLines, List.flatMap_cons, List.map_append, String.join_append, ← memberLines, ← ih,
      ← itemText_eq_join (slot e.1) (hitem e.2)]
    exact String.join_cons

end Members

end IdlDecls
