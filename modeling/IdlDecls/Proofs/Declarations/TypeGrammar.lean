/-!
# The grammar of type texts

The text of a type is read by a grammar of three levels. Bars bind weakest and the brackets of arrays
tightest; whole types stand between parentheses and between angle brackets.

* `Union := Postfix (' | ' Postfix)*`
* `Postfix := Primary '[]'*`
* `Primary := Name | Name '<' Union (', ' Union)* '>' | '(' Union ')'`

An expression is a parse tree of the grammar, and `characters` is the text that it is a parse of. A text
has at most one parse (`UnionExpr.characters_injective`). What an expression means is a list of
alternatives, in which nested unions are flattened and parentheses are gone.
-/

namespace IdlDecls

/-! ## Expressions -/

/-- The characters that are no part of a name. -/
def isTypeDelimiter (c : Char) : Bool :=
  [' ', '[', ']', '(', ')', '<', '>', ',', '|'].contains c

/-- What the grammar takes for a name. White space other than spaces does no harm. -/
def IsTypeName (text : String) : Prop :=
  text ≠ "" ∧ ∀ c ∈ text.toList, isTypeDelimiter c = false

instance (text : String) : Decidable (IsTypeName text) :=
  decidable_of_iff (text ≠ "" ∧ text.toList.all fun c => !isTypeDelimiter c) (by simp [IsTypeName])

/-- A name of the grammar. -/
@[ext]
structure TypeIdentifier where
  text : String
  isTypeName : IsTypeName text

mutual

/-- Alternatives with bars between them, of which there is at least one. -/
inductive UnionExpr where
  | mk (first : PostfixExpr) (others : List PostfixExpr)

/-- A primary expression under a number of arrays. -/
inductive PostfixExpr where
  | mk (base : PrimaryExpr) (arrays : Nat)

/-- A name, with or without arguments, or a union in parentheses. -/
inductive PrimaryExpr where
  | name (name : TypeIdentifier)
  | apply (name : TypeIdentifier) (first : UnionExpr) (others : List UnionExpr)
  | group (inner : UnionExpr)

end

/-- The brackets of arrays. -/
def arrayBrackets : Nat → List Char
  | 0 => []
  | n + 1 => '[' :: ']' :: arrayBrackets n

mutual

/-- The text of a union. -/
def UnionExpr.characters : UnionExpr → List Char
  | .mk first others => first.characters ++ PostfixExpr.charactersAfter others

/-- The text of a primary expression with its brackets. -/
def PostfixExpr.characters : PostfixExpr → List Char
  | .mk base arrays => base.characters ++ arrayBrackets arrays

/-- The text of a primary expression. -/
def PrimaryExpr.characters : PrimaryExpr → List Char
  | .name name => name.text.toList
  | .apply name first others =>
    name.text.toList ++ '<' :: (first.characters ++ (UnionExpr.charactersAfter others ++ ['>']))
  | .group inner => '(' :: (inner.characters ++ [')'])

/-- The text of further alternatives, each behind a bar. -/
def PostfixExpr.charactersAfter : List PostfixExpr → List Char
  | [] => []
  | e :: rest => ' ' :: '|' :: ' ' :: (e.characters ++ PostfixExpr.charactersAfter rest)

/-- The text of further arguments, each behind a comma. -/
def UnionExpr.charactersAfter : List UnionExpr → List Char
  | [] => []
  | e :: rest => ',' :: ' ' :: (e.characters ++ UnionExpr.charactersAfter rest)

end

/-! ## What expressions mean -/

/-- A type that is not a union. A type inside another one is the list of its alternatives. -/
inductive TypeShape where
  | named (name : String)
  | applied (name : String) (arguments : List (List TypeShape))
  | array (item : List TypeShape)

/-- The alternatives of an array of arrays. -/
def TypeShape.arrays : Nat → List TypeShape → List TypeShape
  | 0, item => item
  | n + 1, item => [.array (TypeShape.arrays n item)]

mutual

/-- The alternatives of a union, those of its members one after another. -/
def UnionExpr.alternatives : UnionExpr → List TypeShape
  | .mk first others => first.alternatives ++ PostfixExpr.alternativesOfList others

/-- The alternatives of a primary expression, or their array. -/
def PostfixExpr.alternatives : PostfixExpr → List TypeShape
  | .mk base arrays => TypeShape.arrays arrays base.alternatives

/-- The alternatives of a primary expression; parentheses leave no trace. -/
def PrimaryExpr.alternatives : PrimaryExpr → List TypeShape
  | .name name => [.named name.text]
  | .apply name first others =>
    [.applied name.text (first.alternatives :: UnionExpr.alternativesOfList others)]
  | .group inner => inner.alternatives

/-- The alternatives of several members. -/
def PostfixExpr.alternativesOfList : List PostfixExpr → List TypeShape
  | [] => []
  | e :: rest => e.alternatives ++ PostfixExpr.alternativesOfList rest

/-- The alternatives of each argument. -/
def UnionExpr.alternativesOfList : List UnionExpr → List (List TypeShape)
  | [] => []
  | e :: rest => e.alternatives :: UnionExpr.alternativesOfList rest

end

/-! ## At most one parse -/

/-- A text that is empty or starts with one of the characters. -/
def StartsAmong (starts text : List Char) : Prop := ∀ c ∈ text.head?, c ∈ starts

/-- What can stand behind a union: the end of its parentheses or angle brackets, or a further argument. -/
def afterUnion : List Char := [')', '>', ',']

/-- What can stand behind an alternative: a further one too. -/
def afterPostfix : List Char := ' ' :: afterUnion

/-- What can stand behind a primary expression: brackets too. -/
def afterPrimary : List Char := '[' :: afterPostfix

theorem StartsAmong.mono {starts starts' text : List Char} (h : StartsAmong starts text)
    (hsub : ∀ c ∈ starts, c ∈ starts') : StartsAmong starts' text :=
  fun c hc => hsub c (h c hc)

theorem startsAmong_nil (starts : List Char) : StartsAmong starts [] := by
  simp [StartsAmong]

@[simp] theorem startsAmong_cons {starts rest : List Char} {c : Char} :
    StartsAmong starts (c :: rest) ↔ c ∈ starts := by
  simp [StartsAmong]

/-- Runs of characters without a property end where a character with it stands. -/
theorem eq_of_append_of_stops {stop : Char → Bool} :
    ∀ {xs ys r s : List Char}, (∀ c ∈ xs, stop c = false) → (∀ c ∈ ys, stop c = false) →
      (∀ c ∈ r.head?, stop c = true) → (∀ c ∈ s.head?, stop c = true) →
      xs ++ r = ys ++ s → xs = ys ∧ r = s
  | [], [], _, _, _, _, _, _, h => ⟨rfl, h⟩
  | [], y :: ys, r, s, _, hys, hr, _, h => by
    have hhead : y ∈ r.head? := by rw [show r = y :: (ys ++ s) from h]; rfl
    exact absurd ((hys y (List.mem_cons_self ..)).symm.trans (hr y hhead)) Bool.false_ne_true
  | x :: xs, [], r, s, hxs, _, _, hs, h => by
    have hhead : x ∈ s.head? := by rw [← show x :: (xs ++ r) = s from h]; rfl
    exact absurd ((hxs x (List.mem_cons_self ..)).symm.trans (hs x hhead)) Bool.false_ne_true
  | x :: xs, y :: ys, r, s, hxs, hys, hr, hs, h => by
    obtain ⟨rfl, htail⟩ := List.cons.inj h
    obtain ⟨rfl, hrest⟩ := eq_of_append_of_stops
      (fun c hc => hxs c (List.mem_cons_of_mem _ hc)) (fun c hc => hys c (List.mem_cons_of_mem _ hc))
      hr hs htail
    exact ⟨rfl, hrest⟩

/-- A name ends where a delimiter stands. -/
theorem TypeIdentifier.eq_of_append {a b : TypeIdentifier} {r s : List Char}
    (hr : ∀ c ∈ r.head?, isTypeDelimiter c = true) (hs : ∀ c ∈ s.head?, isTypeDelimiter c = true)
    (h : a.text.toList ++ r = b.text.toList ++ s) : a = b ∧ r = s := by
  obtain ⟨htext, hrest⟩ := eq_of_append_of_stops a.isTypeName.2 b.isTypeName.2 hr hs h
  exact ⟨TypeIdentifier.ext (String.toList_inj.1 htext), hrest⟩

theorem StartsAmong.isTypeDelimiter {text : List Char} (h : StartsAmong afterPrimary text) :
    ∀ c ∈ text.head?, isTypeDelimiter c = true := by
  have hall : afterPrimary.all IdlDecls.isTypeDelimiter = true := by decide
  exact fun c hc => List.all_eq_true.1 hall c (h c hc)

/-- A name is not empty and starts with no delimiter, so it is not taken for parentheses. -/
theorem TypeIdentifier.append_ne_group (a : TypeIdentifier) (r s : List Char) :
    a.text.toList ++ r ≠ '(' :: s := by
  intro h
  cases htext : a.text.toList with
  | nil => exact a.isTypeName.1 (String.toList_eq_nil_iff.1 htext)
  | cons c rest =>
    rw [htext] at h
    have hplain := a.isTypeName.2 c (by rw [htext]; exact List.mem_cons_self ..)
    rw [(List.cons.inj h).1] at hplain
    exact absurd hplain (by decide)

/-- A name that stands alone is not taken for one with arguments. -/
theorem TypeIdentifier.append_ne_apply (a b : TypeIdentifier) {r : List Char}
    (hr : StartsAmong afterPrimary r) (s : List Char) :
    a.text.toList ++ r ≠ b.text.toList ++ '<' :: s := by
  intro h
  have hopen : ∀ c ∈ ('<' :: s).head?, IdlDecls.isTypeDelimiter c = true := by
    rintro _ ⟨⟩
    decide
  obtain ⟨-, rfl⟩ := TypeIdentifier.eq_of_append hr.isTypeDelimiter hopen h
  exact absurd (startsAmong_cons.1 hr) (by decide)

theorem arrayBrackets_eq_of_append : ∀ {m n : Nat} {r s : List Char},
    StartsAmong afterPostfix r → StartsAmong afterPostfix s →
    arrayBrackets m ++ r = arrayBrackets n ++ s → m = n ∧ r = s
  | 0, 0, _, _, _, _, h => ⟨rfl, h⟩
  | 0, n + 1, r, s, hr, _, h => by
    rw [show r = arrayBrackets (n + 1) ++ s from h] at hr
    exact absurd (startsAmong_cons.1 hr) (by decide)
  | m + 1, 0, r, s, _, hs, h => by
    rw [← show arrayBrackets (m + 1) ++ r = s from h] at hs
    exact absurd (startsAmong_cons.1 hs) (by decide)
  | m + 1, n + 1, _, _, hr, hs, h => by
    obtain ⟨hcount, hrest⟩ := arrayBrackets_eq_of_append hr hs (List.cons.inj (List.cons.inj h).2).2
    exact ⟨congrArg (· + 1) hcount, hrest⟩

theorem startsAmong_arrayBrackets (n : Nat) {r : List Char} (hr : StartsAmong afterPostfix r) :
    StartsAmong afterPrimary (arrayBrackets n ++ r) := by
  cases n with
  | zero => exact hr.mono fun c hc => List.mem_cons_of_mem _ hc
  | succ n => exact startsAmong_cons.2 (List.mem_cons_self ..)

theorem PostfixExpr.startsAmong_charactersAfter (others : List PostfixExpr) {r : List Char}
    (hr : StartsAmong afterUnion r) :
    StartsAmong afterPostfix (PostfixExpr.charactersAfter others ++ r) := by
  cases others with
  | nil => exact hr.mono fun c hc => List.mem_cons_of_mem _ hc
  | cons e rest => exact startsAmong_cons.2 (List.mem_cons_self ..)

theorem UnionExpr.startsAmong_charactersAfter (others : List UnionExpr) (r : List Char) :
    StartsAmong afterUnion (UnionExpr.charactersAfter others ++ '>' :: r) := by
  cases others <;> simp [UnionExpr.charactersAfter, afterUnion]

mutual

/-- A union ends where a text starts that can stand behind it. -/
theorem UnionExpr.eq_of_append : ∀ {a b : UnionExpr} {r s : List Char},
    StartsAmong afterUnion r → StartsAmong afterUnion s →
    a.characters ++ r = b.characters ++ s → a = b ∧ r = s
  | .mk a as, .mk b bs, r, s, hr, hs, h => by
    simp only [UnionExpr.characters, List.append_assoc] at h
    obtain ⟨hfirst, hothers⟩ := PostfixExpr.eq_of_append
      (PostfixExpr.startsAmong_charactersAfter as hr)
      (PostfixExpr.startsAmong_charactersAfter bs hs) h
    obtain ⟨rfl, hrest⟩ := PostfixExpr.after_eq_of_append hr hs hothers
    exact ⟨by rw [hfirst], hrest⟩

/-- An alternative ends where a text starts that can stand behind it. -/
theorem PostfixExpr.eq_of_append : ∀ {a b : PostfixExpr} {r s : List Char},
    StartsAmong afterPostfix r → StartsAmong afterPostfix s →
    a.characters ++ r = b.characters ++ s → a = b ∧ r = s
  | .mk a m, .mk b n, r, s, hr, hs, h => by
    simp only [PostfixExpr.characters, List.append_assoc] at h
    obtain ⟨hbase, hbrackets⟩ := PrimaryExpr.eq_of_append (startsAmong_arrayBrackets m hr)
      (startsAmong_arrayBrackets n hs) h
    obtain ⟨hcount, hrest⟩ := arrayBrackets_eq_of_append hr hs hbrackets
    exact ⟨by rw [hbase, hcount], hrest⟩

/-- A primary expression ends where a text starts that can stand behind it. -/
theorem PrimaryExpr.eq_of_append : ∀ {a b : PrimaryExpr} {r s : List Char},
    StartsAmong afterPrimary r → StartsAmong afterPrimary s →
    a.characters ++ r = b.characters ++ s → a = b ∧ r = s
  | .name a, .name b, r, s, hr, hs, h => by
    obtain ⟨hname, hrest⟩ := TypeIdentifier.eq_of_append hr.isTypeDelimiter hs.isTypeDelimiter h
    exact ⟨by rw [hname], hrest⟩
  | .apply a x xs, .apply b y ys, r, s, _, _, h => by
    simp only [PrimaryExpr.characters, List.append_assoc, List.cons_append, List.nil_append] at h
    have hopen : ∀ rest : List Char, ∀ c ∈ ('<' :: rest).head?, isTypeDelimiter c = true := by
      rintro rest _ ⟨⟩
      decide
    obtain ⟨hname, harguments⟩ := TypeIdentifier.eq_of_append (hopen _) (hopen _) h
    obtain ⟨hfirst, hothers⟩ := UnionExpr.eq_of_append (UnionExpr.startsAmong_charactersAfter xs r)
      (UnionExpr.startsAmong_charactersAfter ys s) (List.cons.inj harguments).2
    obtain ⟨rfl, hrest⟩ := UnionExpr.after_eq_of_append hothers
    exact ⟨by rw [hname, hfirst], hrest⟩
  | .group a, .group b, r, s, _, _, h => by
    simp only [PrimaryExpr.characters, List.append_assoc, List.cons_append, List.nil_append] at h
    obtain ⟨hinner, hclosed⟩ := UnionExpr.eq_of_append (startsAmong_cons.2 (List.mem_cons_self ..))
      (startsAmong_cons.2 (List.mem_cons_self ..)) (List.cons.inj h).2
    exact ⟨by rw [hinner], (List.cons.inj hclosed).2⟩
  | .name a, .apply b _ _, _, _, hr, _, h => by
    rw [PrimaryExpr.characters, PrimaryExpr.characters, List.append_assoc] at h
    exact absurd h (a.append_ne_apply b hr _)
  | .apply a _ _, .name b, _, _, _, hs, h => by
    rw [PrimaryExpr.characters, PrimaryExpr.characters, List.append_assoc] at h
    exact absurd h.symm (b.append_ne_apply a hs _)
  | .name a, .group _, _, _, _, _, h => absurd h (a.append_ne_group _ _)
  | .group _, .name b, _, _, _, _, h => absurd h.symm (b.append_ne_group _ _)
  | .apply a _ _, .group _, _, _, _, _, h => by
    rw [PrimaryExpr.characters, List.append_assoc] at h
    exact absurd h (a.append_ne_group _ _)
  | .group _, .apply b _ _, _, _, _, _, h => by
    rw [PrimaryExpr.characters, PrimaryExpr.characters, List.append_assoc] at h
    exact absurd h.symm (b.append_ne_group _ _)

/-- Further alternatives end where a text starts that can stand behind a union. -/
theorem PostfixExpr.after_eq_of_append : ∀ {as bs : List PostfixExpr} {r s : List Char},
    StartsAmong afterUnion r → StartsAmong afterUnion s →
    PostfixExpr.charactersAfter as ++ r = PostfixExpr.charactersAfter bs ++ s → as = bs ∧ r = s
  | [], [], _, _, _, _, h => ⟨rfl, h⟩
  | [], b :: bs, r, s, hr, _, h => by
    rw [show r = PostfixExpr.charactersAfter (b :: bs) ++ s from h] at hr
    exact absurd (startsAmong_cons.1 hr) (by decide)
  | a :: as, [], r, s, _, hs, h => by
    rw [← show PostfixExpr.charactersAfter (a :: as) ++ r = s from h] at hs
    exact absurd (startsAmong_cons.1 hs) (by decide)
  | a :: as, b :: bs, r, s, hr, hs, h => by
    simp only [PostfixExpr.charactersAfter, List.append_assoc, List.cons_append, List.cons.injEq,
      true_and] at h
    obtain ⟨hfirst, hothers⟩ := PostfixExpr.eq_of_append
      (PostfixExpr.startsAmong_charactersAfter as hr)
      (PostfixExpr.startsAmong_charactersAfter bs hs) h
    obtain ⟨rfl, hrest⟩ := PostfixExpr.after_eq_of_append hr hs hothers
    exact ⟨by rw [hfirst], hrest⟩

/-- Further arguments end at the closing bracket. -/
theorem UnionExpr.after_eq_of_append : ∀ {as bs : List UnionExpr} {r s : List Char},
    UnionExpr.charactersAfter as ++ '>' :: r = UnionExpr.charactersAfter bs ++ '>' :: s →
      as = bs ∧ r = s
  | [], [], _, _, h => ⟨rfl, (List.cons.inj h).2⟩
  | [], _ :: _, _, _, h => absurd (List.cons.inj h).1 (by decide)
  | _ :: _, [], _, _, h => absurd (List.cons.inj h).1 (by decide)
  | a :: as, b :: bs, r, s, h => by
    simp only [UnionExpr.charactersAfter, List.append_assoc, List.cons_append, List.cons.injEq,
      true_and] at h
    obtain ⟨hfirst, hothers⟩ := UnionExpr.eq_of_append (UnionExpr.startsAmong_charactersAfter as r)
      (UnionExpr.startsAmong_charactersAfter bs s) h
    obtain ⟨rfl, hrest⟩ := UnionExpr.after_eq_of_append hothers
    exact ⟨by rw [hfirst], hrest⟩

end

/-- **A text has at most one parse.** -/
theorem UnionExpr.characters_injective {a b : UnionExpr} (h : a.characters = b.characters) : a = b :=
  (UnionExpr.eq_of_append (startsAmong_nil _) (startsAmong_nil _)
    (congrArg (· ++ ([] : List Char)) h)).1

end IdlDecls
