/-!
# Blanks: white space, trimming, words and lines

A character is blank when Unicode gives it the property White_Space. Everything that reads or writes
names and comments uses this one class: a text is `blank` when it holds nothing else, `trim` strips
blanks from both ends, `words` cuts a text at its blanks, and `lines` cuts it at its line feeds.
-/

namespace IdlDecls.Text

/-- The characters with the Unicode property White_Space. -/
def isBlank (c : Char) : Bool :=
  let n := c.toNat
  (0x09 ≤ n && n ≤ 0x0D) || n = 0x20 || n = 0x85 || n = 0xA0 || n = 0x1680 ||
    (0x2000 ≤ n && n ≤ 0x200A) || n = 0x2028 || n = 0x2029 || n = 0x202F || n = 0x205F || n = 0x3000

/-- Whether a text holds no character but blanks; the empty text is blank. -/
def blank (s : String) : Bool :=
  s.toList.all isBlank

/-- A list of characters without the blanks at its end. -/
def dropBlanksRight (cs : List Char) : List Char :=
  (cs.reverse.dropWhile isBlank).reverse

/-- A text without the blanks at its two ends. -/
def trim (s : String) : String :=
  String.ofList (dropBlanksRight (s.toList.dropWhile isBlank))

/-- The pieces of a list of characters between those that `cut` selects: always one more piece than
there are cuts, and a piece may be empty. -/
def pieces (cut : Char → Bool) : List Char → List (List Char)
  | [] => [[]]
  | c :: rest =>
    if cut c then [] :: pieces cut rest
    else match pieces cut rest with
      | [] => [[c]]
      | piece :: others => (c :: piece) :: others

/-- The words of a text: its maximal runs without blanks. -/
def words (s : String) : List String :=
  ((pieces isBlank s.toList).filter (· ≠ [])).map String.ofList

/-- The lines of a text. A line feed at the very end opens no further line, and a carriage return
before a line feed stays with its line, where it is a blank. -/
def lines (s : String) : List String :=
  let all := pieces (· = '\n') s.toList
  (if all.getLast? = some [] then all.dropLast else all).map String.ofList

theorem blank_empty : blank "" = true := rfl

/-- No piece holds a character that was cut at. -/
theorem not_cut_of_mem_pieces {cut : Char → Bool} {cs : List Char} :
    ∀ piece ∈ pieces cut cs, ∀ c ∈ piece, cut c = false := by
  induction cs with
  | nil => simp [pieces]
  | cons c rest ih =>
    unfold pieces
    split
    · simpa using ih
    · rename_i hc
      split
      · simpa using hc
      · rename_i piece others heq
        rw [heq] at ih
        simp only [List.mem_cons, forall_eq_or_imp] at ih ⊢
        exact ⟨⟨by simpa using hc, ih.1⟩, ih.2⟩

/-- A word is not empty and holds no blank. -/
theorem mem_words {s w : String} (h : w ∈ words s) :
    w.toList ≠ [] ∧ ∀ c ∈ w.toList, isBlank c = false := by
  simp only [words, List.mem_map, List.mem_filter, ne_eq, decide_not] at h
  obtain ⟨cs, ⟨hmem, hne⟩, rfl⟩ := h
  refine ⟨by simpa using hne, ?_⟩
  simpa using not_cut_of_mem_pieces cs hmem

end IdlDecls.Text
