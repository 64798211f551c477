import IdlDecls.Text.Blank

/-!
# Pieces of a text

A text that is put together from pieces with cuts between them is cut into the same pieces
(`pieces_append_cut`). Contexts of an exposure are cut at blanks and paths at slashes; both come back
as they were joined, if they hold nothing to be cut at. A text that is joined with spaces has the words
of what was joined (`words_intercalate`).
-/

namespace IdlDecls.Text

variable {cut : Char → Bool}

theorem pieces_ne_nil (cs : List Char) : pieces cut cs ≠ [] := by
  cases cs with
  | nil => simp [pieces]
  | cons c rest =>
    rw [pieces]
    split
    · exact List.cons_ne_nil _ _
    · split <;> exact List.cons_ne_nil _ _

theorem pieces_of_not_cut :
    ∀ {cs : List Char}, (∀ c ∈ cs, cut c = false) → pieces cut cs = [cs]
  | [], _ => rfl
  | c :: rest, h => by
    rw [pieces, pieces_of_not_cut fun d hd => h d (List.mem_cons_of_mem c hd)]
    simp [h c (List.mem_cons_self ..)]

/-- **A cut divides the pieces** into those in front of it and those behind it. -/
theorem pieces_append_cut {b : Char} (hb : cut b = true) (rest : List Char) :
    ∀ cs : List Char, pieces cut (cs ++ b :: rest) = pieces cut cs ++ pieces cut rest
  | [] => by simp [pieces, hb]
  | c :: cs => by
    rw [List.cons_append, pieces, pieces_append_cut hb rest cs, pieces]
    by_cases hc : cut c = true
    · rw [if_pos hc, if_pos hc, List.cons_append]
    · rw [if_neg hc, if_neg hc]
      cases hpieces : pieces cut cs with
      | nil => exact absurd hpieces (pieces_ne_nil cs)
      | cons piece others => rfl

/-! ## Words -/

/-- The words of two texts with a space between them are those of the first and then those of the
second. -/
theorem words_append_space (a b : String) : words (a ++ " " ++ b) = words a ++ words b := by
  have hspace : isBlank ' ' = true := by decide
  have hpieces : pieces isBlank (a ++ " " ++ b).toList =
      pieces isBlank a.toList ++ pieces isBlank b.toList := by
    rw [String.append_assoc, String.toList_append, String.toList_append]
    exact pieces_append_cut hspace b.toList a.toList
  rw [words, hpieces, List.filter_append, List.map_append, words, words]

/-- **Joining texts with spaces joins their words.** -/
theorem words_intercalate : ∀ l : List String, words (" ".intercalate l) = l.flatMap words
  | [] => rfl
  | [w] => by rw [String.intercalate_singleton, List.flatMap_singleton]
  | w :: v :: l => by
    rw [String.intercalate_cons_cons, words_append_space, words_intercalate (v :: l)]
    exact List.flatMap_cons.symm

/-- A text without blanks is its only word. -/
theorem words_of_unbroken {w : String} (hne : w ≠ "") (h : ∀ c ∈ w.toList, isBlank c = false) :
    words w = [w] := by
  have hchars : w.toList ≠ [] := by simpa using hne
  rw [words, pieces_of_not_cut h]
  simp [hchars]

/-- Where everything is cut, all pieces are empty. -/
theorem pieces_of_all_cut : ∀ {cs : List Char}, (∀ c ∈ cs, cut c = true) →
    ∀ piece ∈ pieces cut cs, piece = []
  | [], _ => by simp [pieces]
  | c :: cs, h => by
    rw [pieces, if_pos (h c (List.mem_cons_self ..))]
    exact List.forall_mem_cons.2
      ⟨rfl, pieces_of_all_cut fun d hd => h d (List.mem_cons_of_mem c hd)⟩

/-- A blank text has no words. -/
theorem words_of_blank {s : String} (h : blank s = true) : words s = [] := by
  have hempty : (pieces isBlank s.toList).filter (· ≠ []) = [] := by
    simpa [List.filter_eq_nil_iff] using pieces_of_all_cut (List.all_eq_true.1 h)
  rw [words, hempty, List.map_nil]

/-- A word is not blank. -/
theorem blank_of_mem_words {s w : String} (h : w ∈ words s) : blank w = false := by
  obtain ⟨hne, hunbroken⟩ := mem_words h
  obtain ⟨c, hc⟩ := List.exists_mem_of_ne_nil _ hne
  rw [blank, List.all_eq_false]
  exact ⟨c, hc, by simp [hunbroken c hc]⟩

end IdlDecls.Text
