import Mathlib.Data.List.Basic
import IdlDecls.Proofs.Text.Pieces

/-!
# Comments in a text

A comment ends at its first closing, a star and a slash next to each other. Cutting a text at its line
feeds and stripping blanks from the lines neither makes nor breaks a pair of characters that are no blanks,
so a text holds a closing exactly if one of its trimmed lines does (`exists_mem_lines_holdsClosing`). A
text between an opening and a closing of its own is a comment to the end exactly if it holds no closing
(`behindComment_iff`).
-/

namespace IdlDecls.Text

/-- A text in which a comment ends. -/
def HoldsClosing (s : String) : Prop := ['*', '/'] <:+: s.toList

/-! ## Pairs of characters -/

section Pairs

variable {cut : Char → Bool} {a b : Char}

theorem pair_infix_cons {c : Char} {l : List Char} :
    [a, b] <:+: c :: l ↔ (a = c ∧ l.head? = some b) ∨ [a, b] <:+: l := by
  rw [List.infix_cons_iff, List.cons_prefix_cons]
  cases l with
  | nil => simp
  | cons d rest => simp [List.cons_prefix_cons, eq_comm]

/-- A pair starts in the first piece where it starts in the text. -/
theorem head?_of_pieces_eq_cons (hb : cut b = false) {cs piece : List Char}
    {others : List (List Char)} (h : pieces cut cs = piece :: others) :
    piece.head? = some b ↔ cs.head? = some b := by
  cases cs with
  | nil =>
    rw [pieces] at h
    cases h
    rfl
  | cons c rest =>
    rw [pieces] at h
    by_cases hc : cut c = true
    · rw [if_pos hc] at h
      cases h
      have hne : c ≠ b := by
        rintro rfl
        exact Bool.false_ne_true (hb.symm.trans hc)
      simp [hne]
    · rw [if_neg hc] at h
      cases hpieces : pieces cut rest with
      | nil => exact absurd hpieces (pieces_ne_nil rest)
      | cons first more =>
        rw [hpieces] at h
        cases h
        rfl

/-- **Cuts break no pair** of characters that are not cut at. -/
theorem exists_mem_pieces_pair (ha : cut a = false) (hb : cut b = false) (cs : List Char) :
    (∃ piece ∈ pieces cut cs, [a, b] <:+: piece) ↔ [a, b] <:+: cs := by
  induction cs with
  | nil => simp [pieces]
  | cons c rest ih =>
    rw [pieces]
    by_cases hc : cut c = true
    · have hne : a ≠ c := by
        rintro rfl
        exact Bool.false_ne_true (ha.symm.trans hc)
      rw [if_pos hc, List.exists_mem_cons_iff, ih, pair_infix_cons]
      simp [hne]
    · rw [if_neg hc]
      cases hpieces : pieces cut rest with
      | nil => exact absurd hpieces (pieces_ne_nil rest)
      | cons piece others =>
        rw [hpieces, List.exists_mem_cons_iff] at ih
        rw [List.exists_mem_cons_iff, pair_infix_cons, pair_infix_cons,
          head?_of_pieces_eq_cons hb hpieces, or_assoc, ih]

/-- Dropping what a pair does not start with breaks no pair. -/
theorem pair_infix_dropWhile {p : Char → Bool} (ha : p a = false) (l : List Char) :
    [a, b] <:+: l.dropWhile p ↔ [a, b] <:+: l := by
  induction l with
  | nil => rfl
  | cons c rest ih =>
    rw [List.dropWhile_cons]
    by_cases hc : p c = true
    · have hne : a ≠ c := by
        rintro rfl
        exact Bool.false_ne_true (ha.symm.trans hc)
      rw [if_pos hc, ih, pair_infix_cons]
      simp [hne]
    · rw [if_neg hc]

theorem pair_infix_reverse (l : List Char) : [a, b] <:+: l.reverse ↔ [b, a] <:+: l :=
  @List.reverse_infix _ [b, a] l

/-- Stripping blanks breaks no pair of characters that are no blanks. -/
theorem pair_infix_trim (ha : isBlank a = false) (hb : isBlank b = false) (s : String) :
    [a, b] <:+: (trim s).toList ↔ [a, b] <:+: s.toList := by
  rw [trim, String.toList_ofList, dropBlanksRight, pair_infix_reverse, pair_infix_dropWhile hb,
    pair_infix_reverse, pair_infix_dropWhile ha]

end Pairs

/-! ## Lines -/

theorem isBlank_star : isBlank '*' = false := by decide

theorem isBlank_slash : isBlank '/' = false := by decide

theorem holdsClosing_trim (s : String) : HoldsClosing (trim s) ↔ HoldsClosing s :=
  pair_infix_trim isBlank_star isBlank_slash s

theorem not_holdsClosing_of_not_mem {s : String} (h : '*' ∉ s.toList) : ¬ HoldsClosing s :=
  fun hclosing => h (hclosing.subset (List.mem_cons_self ..))

/-- A blank text holds no closing. -/
theorem not_holdsClosing_of_blank {s : String} (h : blank s = true) : ¬ HoldsClosing s :=
  not_holdsClosing_of_not_mem fun hstar =>
    Bool.false_ne_true (isBlank_star.symm.trans (List.all_eq_true.1 h '*' hstar))

/-- The lines of a text are its pieces between line feeds, except that an empty one at the end is none. -/
theorem exists_mem_lines_iff (s : String) {P : List Char → Prop} (hempty : ¬ P []) :
    (∃ line ∈ lines s, P line.toList) ↔ ∃ piece ∈ pieces (· = '\n') s.toList, P piece := by
  have hall : (∃ piece ∈ if (pieces (· = '\n') s.toList).getLast? = some [] then
        (pieces (· = '\n') s.toList).dropLast else pieces (· = '\n') s.toList, P piece) ↔
      ∃ piece ∈ pieces (· = '\n') s.toList, P piece := by
    split
    · rename_i hlast
      obtain ⟨init, hinit⟩ := List.getLast?_eq_some_iff.1 hlast
      simp [hinit, or_and_right, exists_or, hempty]
    · rfl
  rw [← hall]
  simp [lines]

/-- **A text holds a closing exactly if one of its lines does.** -/
theorem exists_mem_lines_holdsClosing (s : String) :
    (∃ line ∈ lines s, HoldsClosing line) ↔ HoldsClosing s :=
  (exists_mem_lines_iff s (by simp)).trans
    (exists_mem_pieces_pair (by decide) (by decide) s.toList)

/-! ## Reading a comment -/

/-- What stands behind the first closing. -/
def behindComment : List Char → Option (List Char)
  | [] => none
  | c :: rest =>
    if c = '*' ∧ rest.head? = some '/' then some rest.tail else behindComment rest

/-- Where a text holds a closing, the comment ends in it. -/
theorem exists_behindComment {cs : List Char} (h : ['*', '/'] <:+: cs) (rest : List Char) :
    ∃ left, behindComment (cs ++ rest) = some (left ++ rest) := by
  induction cs with
  | nil => simp at h
  | cons c cs ih =>
    rw [List.cons_append, behindComment]
    cases cs with
    | nil => simp [pair_infix_cons] at h
    | cons d cs =>
      by_cases hclosing : c = '*' ∧ d = '/'
      · exact ⟨cs, if_pos (by simpa using hclosing)⟩
      · rw [if_neg (by simpa using hclosing)]
        refine ih ((pair_infix_cons.1 h).resolve_left fun hpair => hclosing ?_)
        simpa [eq_comm] using hpair

/-- Where it holds none, the comment ends at the closing behind it. -/
theorem behindComment_append {cs : List Char} (h : ¬ ['*', '/'] <:+: cs) (rest : List Char) :
    behindComment (cs ++ ' ' :: '*' :: '/' :: rest) = some rest := by
  induction cs with
  | nil => simp [behindComment]
  | cons c cs ih =>
    rw [pair_infix_cons, not_or] at h
    have hnot : ¬ (c = '*' ∧ (cs ++ ' ' :: '*' :: '/' :: rest).head? = some '/') := by
      rintro ⟨rfl, hhead⟩
      cases cs with
      | nil => simp at hhead
      | cons d cs => exact h.1 ⟨rfl, hhead⟩
    rw [List.cons_append, behindComment, if_neg hnot, ih h.2]

/-- **A comment lasts to the closing behind its text** exactly if the text holds none. -/
theorem behindComment_iff (cs rest : List Char) :
    behindComment (cs ++ ' ' :: '*' :: '/' :: rest) = some rest ↔ ¬ ['*', '/'] <:+: cs := by
  refine ⟨fun hbehind hclosing => ?_, fun h => behindComment_append h rest⟩
  obtain ⟨left, hleft⟩ := exists_behindComment hclosing (' ' :: '*' :: '/' :: rest)
  have hlength := congrArg List.length (Option.some.inj (hleft.symm.trans hbehind))
  simp at hlength
  omega

end IdlDecls.Text
