/-!
# Entries: lists of named values

The plain lists under everything that is looked up by name. `Entries.insert` puts a value at its
place in the ascending order of names or replaces the value that has the name; the laws on `get?`
hold for every list, ascending or not. Names are ordered by code points, which is the order of their
UTF-8 bytes.
-/

namespace IdlDecls

/-- Values with their names, in some order. -/
abbrev Entries (α : Type u) := List (String × α)

namespace Entries

variable {α : Type u} {β : Type v}

/-- The value of the first entry with a name. -/
def get? : Entries α → String → Option α
  | [], _ => none
  | (k, v) :: rest, key => if k = key then some v else get? rest key

/-- Puts a value in front of the first greater name, or in place of the value with its name. -/
def insert (key : String) (value : α) : Entries α → Entries α
  | [] => [(key, value)]
  | (k, v) :: rest =>
    if key < k then (key, value) :: (k, v) :: rest
    else if key = k then (key, value) :: rest
    else (k, v) :: insert key value rest

/-- The names strictly ascend, so no name repeats. -/
def Ascending (l : Entries α) : Prop :=
  l.Pairwise (fun a b => a.1 < b.1)

instance (l : Entries α) : Decidable (Ascending l) :=
  inferInstanceAs (Decidable (List.Pairwise _ _))

/-- The entries in ascending order; of two with one name the later stays. -/
def sorted (l : Entries α) : Entries α :=
  l.foldl (fun acc e => insert e.1 e.2 acc) []

theorem get?_insert (key key' : String) (value : α) (l : Entries α) :
    get? (insert key value l) key' = if key = key' then some value else get? l key' := by
  induction l with
  | nil => rfl
  | cons e rest ih =>
    obtain ⟨k, v⟩ := e
    simp only [insert]
    split
    · simp [get?]
    · split
      · rename_i _ h; subst h; simp only [get?]; split <;> simp_all
      · rename_i h; simp only [get?, ih]; split
        · rename_i hk; subst hk; simp [h]
        · rfl

theorem mem_of_mem_insert {key : String} {value : α} {l : Entries α} {e : String × α}
    (h : e ∈ insert key value l) : e = (key, value) ∨ e ∈ l := by
  induction l with
  | nil => simpa [insert] using h
  | cons d rest ih =>
    obtain ⟨k, v⟩ := d
    simp only [insert] at h
    split at h
    · simpa using h
    · split at h
      · rcases List.mem_cons.1 h with h | h
        · exact .inl h
        · exact .inr (List.mem_cons_of_mem _ h)
      · rcases List.mem_cons.1 h with h | h
        · exact .inr (by simp [h])
        · rcases ih h with h | h
          · exact .inl h
          · exact .inr (List.mem_cons_of_mem _ h)

theorem ascending_insert {key : String} {value : α} {l : Entries α} (h : Ascending l) :
    Ascending (insert key value l) := by
  induction l with
  | nil => simp [insert, Ascending]
  | cons e rest ih =>
    obtain ⟨k, v⟩ := e
    obtain ⟨hhead, htail⟩ := List.pairwise_cons.1 h
    simp only [insert]
    split
    · rename_i hlt
      refine List.pairwise_cons.2 ⟨?_, h⟩
      intro d hd
      rcases List.mem_cons.1 hd with rfl | hd
      · exact hlt
      · exact String.lt_trans hlt (hhead d hd)
    · split
      · rename_i _ heq
        subst heq
        exact List.pairwise_cons.2 ⟨hhead, htail⟩
      · rename_i hnlt hne
        refine List.pairwise_cons.2 ⟨?_, ih htail⟩
        intro d hd
        rcases mem_of_mem_insert hd with rfl | hd
        · exact Std.lt_of_le_of_ne (Std.not_lt.1 hnlt) (fun h => hne h.symm)
        · exact hhead d hd

theorem ascending_sorted (l : Entries α) : Ascending (sorted l) := by
  suffices ∀ acc, Ascending acc → Ascending (l.foldl (fun acc e => insert e.1 e.2 acc) acc) from
    this [] .nil
  induction l with
  | nil => exact fun _ h => h
  | cons e rest ih => exact fun acc h => ih _ (ascending_insert h)

/-- A name below every name of a list is not in it. -/
theorem get?_eq_none_of_lt {l : Entries α} {key : String} (h : ∀ e ∈ l, key < e.1) :
    get? l key = none := by
  induction l with
  | nil => rfl
  | cons e rest ih =>
    obtain ⟨k, v⟩ := e
    have hk : k ≠ key := fun hk => String.lt_irrefl key (hk ▸ h (k, v) (List.mem_cons_self ..))
    simp [get?, hk, ih fun e he => h e (List.mem_cons_of_mem _ he)]

theorem get?_eq_some_iff_mem {l : Entries α} (h : Ascending l) {key : String} {value : α} :
    get? l key = some value ↔ (key, value) ∈ l := by
  induction l with
  | nil => simp [get?]
  | cons e rest ih =>
    obtain ⟨k, v⟩ := e
    obtain ⟨hhead, htail⟩ := List.pairwise_cons.1 h
    simp only [get?]
    split
    · rename_i hk
      subst hk
      have hrest : (k, value) ∉ rest := fun hm => String.lt_irrefl k (hhead _ hm)
      simp [hrest, eq_comm]
    · rename_i hk
      have : ¬ ((key, value) = (k, v)) := fun he => hk (Prod.mk.inj he).1.symm
      simp [ih htail, Ne.symm hk]

/-- Ascending lists with the same values by name are equal. -/
theorem ext_get? {l m : Entries α} (hl : Ascending l) (hm : Ascending m)
    (h : ∀ key, get? l key = get? m key) : l = m := by
  induction l generalizing m with
  | nil =>
    cases m with
    | nil => rfl
    | cons d ms => have := h d.1; simp [get?] at this
  | cons e ls ih =>
    cases m with
    | nil => have := h e.1; simp [get?] at this
    | cons d ms =>
      obtain ⟨k, v⟩ := e
      obtain ⟨j, w⟩ := d
      obtain ⟨hk, hls⟩ := List.pairwise_cons.1 hl
      obtain ⟨hj, hms⟩ := List.pairwise_cons.1 hm
      have hkj : k = j := by
        rcases Std.lt_trichotomy k j with hlt | heq | hgt
        · have := h k
          rw [get?_eq_none_of_lt (l := (j, w) :: ms) ?_] at this
          · simp [get?] at this
          · intro e he
            rcases List.mem_cons.1 he with rfl | he
            · exact hlt
            · exact String.lt_trans hlt (hj e he)
        · exact heq
        · have := h j
          rw [get?_eq_none_of_lt (l := (k, v) :: ls) ?_] at this
          · simp [get?] at this
          · intro e he
            rcases List.mem_cons.1 he with rfl | he
            · exact hgt
            · exact String.lt_trans hgt (hk e he)
      subst hkj
      have hvw : v = w := by simpa [get?] using h k
      subst hvw
      congr 1
      refine ih hls hms fun key => ?_
      by_cases hkey : k = key
      · subst hkey
        rw [get?_eq_none_of_lt hk, get?_eq_none_of_lt hj]
      · simpa [get?, hkey] using h key

end Entries

end IdlDecls
