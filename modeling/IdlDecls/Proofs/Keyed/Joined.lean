import IdlDecls.Model.Graph
import IdlDecls.Proofs.Runs

/-!
# Joining collections by key

`Joined R base addition result` says how two optional values make a third: a value on one side
only is the result as it is, and values on both sides make a result along `R`. `Keyed.joinM` is
this at every key (`joinM_eq_ok_iff`), and since a collection is determined by its lookups, that
determines the result. The file also has the lookups of collections built from lists.
-/

namespace IdlDecls

variable {α β ε : Type}

/-! ## Two optional values -/

/-- The value of one side as it is, and what `R` makes of the values of both. -/
inductive Joined (R : α → α → α → Prop) : Option α → Option α → Option α → Prop where
  | base (base : Option α) : Joined R base none base
  | addition (addition : Option α) : Joined R none addition addition
  | both {old new merged : α} : R old new merged → Joined R (some old) (some new) (some merged)

namespace Joined

variable {R S : α → α → α → Prop} {base addition result : Option α}

@[simp] theorem none_right_iff : Joined R base none result ↔ result = base := by
  constructor
  · intro h; cases h <;> rfl
  · rintro rfl; exact .base _

@[simp] theorem none_left_iff : Joined R none addition result ↔ result = addition := by
  constructor
  · intro h; cases h <;> rfl
  · rintro rfl; exact .addition _

@[simp] theorem some_some_iff {old new : α} :
    Joined R (some old) (some new) result ↔ ∃ merged, result = some merged ∧ R old new merged := by
  constructor
  · rintro (_ | _ | h); exact ⟨_, rfl, h⟩
  · rintro ⟨merged, rfl, h⟩; exact .both h

theorem congr_iff (h : ∀ old new merged, R old new merged ↔ S old new merged) :
    Joined R base addition result ↔ Joined S base addition result := by
  have : R = S := by funext a b c; exact propext (h a b c)
  rw [this]

theorem mono (hR : ∀ old new merged, R old new merged → S old new merged)
    (h : Joined R base addition result) : Joined S base addition result := by
  cases h with
  | base => exact .base _
  | addition => exact .addition _
  | both h => exact .both (hR _ _ _ h)

/-- A functional relation leaves one result. -/
theorem unique (hR : ∀ old new m m', R old new m → R old new m' → m = m') {result' : Option α}
    (h : Joined R base addition result) (h' : Joined R base addition result') :
    result = result' := by
  cases h with
  | base b => exact (none_right_iff.1 h').symm
  | addition a => exact (none_left_iff.1 h').symm
  | both h =>
    obtain ⟨m, rfl, hm⟩ := some_some_iff.1 h'
    rw [hR _ _ _ _ h hm]

/-- A total relation leaves a result. -/
theorem exists_result (hR : ∀ old new, ∃ m, R old new m) (base addition : Option α) :
    ∃ result, Joined R base addition result := by
  cases base with
  | none => exact ⟨addition, .addition _⟩
  | some old =>
    cases addition with
    | none => exact ⟨_, .base _⟩
    | some new => obtain ⟨m, hm⟩ := hR old new; exact ⟨some m, .both hm⟩

/-- Joining leaves a value where a side has one. -/
theorem isSome_eq (h : Joined R base addition result) :
    result.isSome = (base.isSome || addition.isSome) := by
  cases h <;> simp

/-- What holds of a joined value if it holds of a side holds of optional values in the same way. -/
theorem any_eq {p : α → Bool} (hR : ∀ old new merged, R old new merged → p merged = (p old || p new))
    (h : Joined R base addition result) : result.any p = (base.any p || addition.any p) := by
  cases h with
  | base => simp
  | addition => simp
  | both h => exact hR _ _ _ h

/-- What joined values have if both sides do, optional values have in the same way. -/
theorem all {P : α → Prop} (hR : ∀ old new merged, P old → P new → R old new merged → P merged)
    (h : Joined R base addition result) (hb : ∀ a ∈ base, P a) (ha : ∀ a ∈ addition, P a) :
    ∀ a ∈ result, P a := by
  cases h with
  | base => exact hb
  | addition => exact ha
  | both h =>
    rintro _ ⟨⟩
    exact hR _ _ _ (hb _ rfl) (ha _ rfl) h

/-- A part of the values is joined if the part of both sides is. -/
theorem map {f : α → β} {S : β → β → β → Prop}
    (hS : ∀ old new merged, R old new merged → S (f old) (f new) (f merged))
    (h : Joined R base addition result) : Joined S (base.map f) (addition.map f) (result.map f) := by
  cases h with
  | base => exact .base _
  | addition => exact .addition _
  | both h => exact .both (hS _ _ _ h)

/-- A part that values may leave out is joined if the part of both sides is. -/
theorem bind {f : α → Option β} {S : β → β → β → Prop}
    (hS : ∀ old new merged, R old new merged → Joined S (f old) (f new) (f merged))
    (h : Joined R base addition result) :
    Joined S (base.bind f) (addition.bind f) (result.bind f) := by
  cases h with
  | base => exact .base _
  | addition => exact .addition _
  | both h => exact hS _ _ _ h

/-- Two values come to a third in either order if, where both are there, they commute beside each other
and over a base. -/
theorem swap {a b mid : Option α} (hcomm : ∀ x ∈ a, ∀ y ∈ b, ∀ z, R x y z → R y x z)
    (hswap : ∀ x ∈ a, ∀ y ∈ b, ∀ w m z, R w x m → R m y z → ∃ m', R w y m' ∧ R m' x z)
    (hmid : Joined R base a mid) (h : Joined R mid b result) :
    ∃ mid', Joined R base b mid' ∧ Joined R mid' a result := by
  cases a with
  | none =>
    cases none_right_iff.1 hmid
    exact ⟨result, h, .base _⟩
  | some x =>
    cases b with
    | none =>
      cases none_right_iff.1 h
      exact ⟨base, .base _, hmid⟩
    | some y =>
      cases base with
      | none =>
        cases none_left_iff.1 hmid
        obtain ⟨z, rfl, hz⟩ := some_some_iff.1 h
        exact ⟨some y, .addition _, .both (hcomm x rfl y rfl z hz)⟩
      | some w =>
        obtain ⟨m, rfl, hm⟩ := some_some_iff.1 hmid
        obtain ⟨z, rfl, hz⟩ := some_some_iff.1 h
        obtain ⟨m', hm', hz'⟩ := hswap x rfl y rfl w m z hm hz
        exact ⟨some m', .both hm', .both hz'⟩

end Joined

/-! ## Collections -/

namespace Entries

theorem get?_eq_none_iff {l : Entries α} {key : String} :
    get? l key = none ↔ ∀ e ∈ l, e.1 ≠ key := by
  induction l with
  | nil => simp [get?]
  | cons e rest ih =>
    obtain ⟨k, v⟩ := e
    by_cases hk : k = key
    · simp [get?, hk]
    · simp [get?, hk, ih]

theorem mem_of_get? {l : Entries α} {key : String} {value : α} (h : get? l key = some value) :
    (key, value) ∈ l := by
  induction l with
  | nil => cases h
  | cons e rest ih =>
    obtain ⟨k, v⟩ := e
    by_cases hk : k = key
    · simp only [get?, hk, ↓reduceIte, Option.some.injEq] at h
      simp [hk, h]
    · simp only [get?, hk, ↓reduceIte] at h
      exact List.mem_cons_of_mem _ (ih h)

theorem get?_cons_eq_some_iff {key : String} {value : α} {rest : Entries α}
    (h : Ascending ((key, value) :: rest)) {name : String} {found : α} :
    get? ((key, value) :: rest) name = some found ↔
      (key = name ∧ value = found) ∨ get? rest name = some found := by
  rw [get?_eq_some_iff_mem h, get?_eq_some_iff_mem (List.pairwise_cons.1 h).2, List.mem_cons,
    Prod.mk.injEq, @eq_comm _ name, @eq_comm _ found]

theorem get?_append (l m : Entries α) (key : String) :
    get? (l ++ m) key = (get? l key).or (get? m key) := by
  induction l with
  | nil => simp [get?]
  | cons e rest ih =>
    obtain ⟨k, v⟩ := e
    by_cases hk : k = key
    · simp [get?, hk]
    · simp [get?, hk, ih]

theorem get?_map (f : String → α → β) (l : Entries α) (key : String) :
    get? (l.map fun e => (e.1, f e.1 e.2)) key = (get? l key).map (f key) := by
  induction l with
  | nil => rfl
  | cons e rest ih =>
    obtain ⟨k, v⟩ := e
    by_cases hk : k = key
    · subst hk; simp [get?]
    · simp only [List.map_cons, get?, hk, ↓reduceIte, ih]

/-- An insertion fold looks up the last entry with a key, else what was there before. -/
theorem get?_foldl_insert (l acc : Entries α) (key : String) :
    get? (l.foldl (fun acc e => insert e.1 e.2 acc) acc) key =
      (get? l.reverse key).or (get? acc key) := by
  induction l generalizing acc with
  | nil => simp [get?]
  | cons e rest ih =>
    obtain ⟨k, v⟩ := e
    rw [List.foldl_cons, ih, get?_insert, List.reverse_cons, get?_append, Option.or_assoc]
    congr 1
    by_cases hk : k = key <;> simp [get?, hk]

/-- Of two entries with a key, sorting keeps the later. -/
theorem get?_sorted (l : Entries α) (key : String) : get? (sorted l) key = get? l.reverse key := by
  rw [sorted, get?_foldl_insert]
  simp [get?]

/-- No key of ascending entries repeats, so they can be searched from either end. -/
theorem get?_reverse_of_ascending {l : Entries α} (h : Ascending l) (key : String) :
    get? l.reverse key = get? l key := by
  induction l with
  | nil => rfl
  | cons e rest ih =>
    obtain ⟨k, v⟩ := e
    obtain ⟨hhead, htail⟩ := List.pairwise_cons.1 h
    rw [List.reverse_cons, get?_append, ih htail]
    by_cases hk : k = key
    · subst hk; simp [get?, get?_eq_none_of_lt hhead]
    · simp [get?, hk]

end Entries

namespace Keyed

theorem mem_values {m : Keyed α} {value : α} : value ∈ m.values ↔ ∃ key, m.get? key = some value := by
  simp only [values, List.mem_map, get?_eq_some_iff_mem]
  constructor
  · rintro ⟨⟨key, v⟩, he, rfl⟩; exact ⟨key, he⟩
  · rintro ⟨key, he⟩; exact ⟨(key, value), he, rfl⟩

theorem get?_ofList (l : List (String × α)) (key : String) :
    (ofList l).get? key = Entries.get? l.reverse key :=
  Entries.get?_sorted l key

/-- Among entries that agree wherever they share a key, a lookup finds each of them. -/
theorem get?_ofList_eq_some_iff {l : List (String × α)} {key : String} {value : α}
    (h : ∀ e ∈ l, ∀ d ∈ l, e.1 = d.1 → e.2 = d.2) :
    (ofList l).get? key = some value ↔ (key, value) ∈ l := by
  have hrev : ∀ m : Entries α, (∀ e ∈ m, ∀ d ∈ m, e.1 = d.1 → e.2 = d.2) →
      (Entries.get? m key = some value ↔ (key, value) ∈ m) := by
    intro m hm
    induction m with
    | nil => simp [Entries.get?]
    | cons e rest ih =>
      obtain ⟨k, v⟩ := e
      have ih := ih fun e he d hd => hm e (by simp [he]) d (by simp [hd])
      by_cases hk : k = key
      · subst hk
        simp only [Entries.get?, ↓reduceIte, Option.some.injEq, List.mem_cons, Prod.mk.injEq,
          true_and]
        constructor
        · rintro rfl; exact Or.inl rfl
        · rintro (rfl | hmem)
          · rfl
          · exact hm (k, v) (by simp) (k, value) (by simp [hmem]) rfl
      · simp [Entries.get?, hk, ih, Ne.symm hk]
  rw [get?_ofList, hrev _ fun e he d hd => h e (by simpa using he) d (by simpa using hd)]
  simp

/-- Values that are replaced one by one stay under their names. -/
theorem ascending_entries_map (f : α → β) (m : Keyed α) :
    Entries.Ascending (m.entries.map fun e => (e.1, f e.2)) := by
  simpa [Entries.Ascending, List.pairwise_map] using m.ascending

theorem get?_entries_map (f : α → β) (m : Keyed α) (key : String) :
    Entries.get? (m.entries.map fun e => (e.1, f e.2)) key = (m.get? key).map f :=
  Entries.get?_map (fun _ => f) m.entries key

/-- A test that every entry passes leaves out none. -/
theorem filter_eq_self {p : String → α → Bool} {m : Keyed α}
    (h : ∀ key value, m.get? key = some value → p key value = true) : m.filter p = m := by
  apply ext_get?
  intro key
  rw [get?_filter]
  cases hv : m.get? key with
  | none => rfl
  | some value => simp [h key value hv]

/-! ## Joining -/

section Joining

variable {join : String → α → α → Except ε α}

/-- One step of a join, at every key. -/
theorem joinM_step {acc next : Keyed α} {e : String × α}
    (h : (match acc.get? e.1 with
      | none => pure (acc.insert e.1 e.2)
      | some old => acc.insert e.1 <$> join e.1 old e.2) = Except.ok next) (key : String) :
    if e.1 = key then
      Joined (fun old new merged => join key old new = .ok merged) (acc.get? key) (some e.2)
        (next.get? key)
    else next.get? key = acc.get? key := by
  obtain ⟨k, v⟩ := e
  simp only at h ⊢
  cases hold : acc.get? k with
  | none =>
    rw [hold] at h
    cases pure_eq_ok_iff.1 h
    by_cases hk : k = key
    · subst hk; simp [hold]
    · simp [hk]
  | some old =>
    rw [hold] at h
    obtain ⟨merged, hm, rfl⟩ := map_eq_ok_iff.1 h
    by_cases hk : k = key
    · subst hk; simp [hold, hm]
    · simp [hk]

/-- **A join is a join at every key.** -/
theorem get?_joinM {base addition result : Keyed α} (h : joinM join base addition = .ok result)
    (key : String) :
    Joined (fun old new merged => join key old new = .ok merged) (base.get? key)
      (addition.get? key) (result.get? key) := by
  obtain ⟨l, hl⟩ := addition
  simp only [joinM, get?] at h ⊢
  induction l generalizing base with
  | nil => cases foldlM_nil_eq_ok_iff.1 h; exact .base _
  | cons e rest ih =>
    obtain ⟨next, hnext, hrest⟩ := foldlM_cons_eq_ok_iff.1 h
    obtain ⟨hhead, htail⟩ := List.pairwise_cons.1 hl
    have hstep := joinM_step hnext key
    have ih := ih htail hrest
    simp only [Entries.get?]
    by_cases hk : e.1 = key
    · -- the key of the first entry does not come again
      rw [if_pos hk] at hstep ⊢
      have hnone : Entries.get? rest key = none := Entries.get?_eq_none_of_lt (hk ▸ hhead)
      rw [hnone, Joined.none_right_iff] at ih
      exact (show result.entries.get? key = next.entries.get? key from ih) ▸ hstep
    · rw [if_neg hk] at hstep ⊢
      exact (show next.entries.get? key = base.entries.get? key from hstep) ▸ ih

/-- **A join that succeeds at every shared key succeeds.** The induction is on the entries of the
addition; since their keys ascend, what one brings to the base does not meet the next. -/
theorem joinM_ends {base addition : Keyed α}
    (hjoin : ∀ key old new, base.get? key = some old → addition.get? key = some new →
      ∃ merged, join key old new = .ok merged) :
    ∃ result, joinM join base addition = .ok result := by
  obtain ⟨l, hl⟩ := addition
  simp only [joinM]
  induction l generalizing base with
  | nil => exact ⟨base, rfl⟩
  | cons e rest ih =>
    obtain ⟨k, v⟩ := e
    obtain ⟨hhead, htail⟩ := List.pairwise_cons.1 hl
    have hnone : Entries.get? rest k = none := Entries.get?_eq_none_of_lt hhead
    have hrest : ∀ value, ∃ result, joinM join (base.insert k value) ⟨rest, htail⟩ = .ok result := by
      refine fun value => ih htail fun key old new hold hnew => ?_
      have hne : k ≠ key := by
        rintro rfl
        exact Option.some_ne_none new (hnew.symm.trans hnone)
      rw [get?_insert, if_neg hne] at hold
      refine hjoin key old new hold ?_
      simp only [get?, Entries.get?, if_neg hne]
      exact hnew
    cases hold : base.get? k with
    | none =>
      obtain ⟨result, hresult⟩ := hrest v
      refine ⟨result, foldlM_cons_eq_ok_iff.2 ⟨base.insert k v, ?_, hresult⟩⟩
      simp only [hold]
      rfl
    | some old =>
      obtain ⟨merged, hm⟩ := hjoin k old v hold (by simp [get?, Entries.get?])
      obtain ⟨result, hresult⟩ := hrest merged
      refine ⟨result, foldlM_cons_eq_ok_iff.2 ⟨base.insert k merged, ?_, hresult⟩⟩
      simp only [hold, hm]
      rfl

theorem joinM_total (hjoin : ∀ key old new, ∃ merged, join key old new = .ok merged)
    (base addition : Keyed α) : ∃ result, joinM join base addition = .ok result :=
  joinM_ends fun key old new _ _ => hjoin key old new

/-- A join ends if the values under every key can be joined. -/
theorem joinM_of_joined {base addition : Keyed α}
    (h : ∀ key, ∃ value, Joined (fun old new merged => join key old new = .ok merged)
      (base.get? key) (addition.get? key) value) :
    ∃ result, joinM join base addition = .ok result := by
  refine joinM_ends fun key old new hold hnew => ?_
  obtain ⟨value, hkey⟩ := h key
  rw [hold, hnew, Joined.some_some_iff] at hkey
  obtain ⟨merged, -, hm⟩ := hkey
  exact ⟨merged, hm⟩

/-- The lookups of its result are all there is to a join. -/
theorem joinM_eq_ok_iff {base addition result : Keyed α} :
    joinM join base addition = .ok result ↔
      ∀ key, Joined (fun old new merged => join key old new = .ok merged) (base.get? key)
        (addition.get? key) (result.get? key) := by
  refine ⟨fun h key => get?_joinM h key, fun h => ?_⟩
  obtain ⟨other, hother⟩ := joinM_of_joined fun key => ⟨_, h key⟩
  have heq : other = result := ext_get? fun key =>
    (get?_joinM hother key).unique (fun _ _ m m' hm hm' => by simpa [hm] using hm') (h key)
  exact heq ▸ hother

/-- A join that ends at every key as another does ends as the other does. -/
theorem joinM_mono {join' : String → α → α → Except ε α}
    (hjoin : ∀ key old new merged, join key old new = .ok merged → join' key old new = .ok merged)
    {base addition result : Keyed α} (h : joinM join base addition = .ok result) :
    joinM join' base addition = .ok result := by
  refine foldlM_mono (fun acc e next hnext => ?_) h
  cases hold : acc.get? e.1 with
  | none => simpa only [hold] using hnext
  | some old =>
    simp only [hold] at hnext ⊢
    obtain ⟨merged, hm, rfl⟩ := map_eq_ok_iff.1 hnext
    exact map_eq_ok_iff.2 ⟨merged, hjoin e.1 old e.2 merged hm, rfl⟩

end Joining

end Keyed

/-! ## Collections that may be left out -/

@[simp] theorem lookup?_none (key : String) : lookup? (none : Option (Keyed α)) key = none := rfl

@[simp] theorem lookup?_some (m : Keyed α) (key : String) : lookup? (some m) key = m.get? key := rfl

@[simp] theorem lookup?_map (f : Keyed α → Keyed β) (c : Option (Keyed α)) (key : String) :
    lookup? (c.map f) key = c.bind fun m => (f m).get? key := by
  cases c <;> rfl

theorem lookup?_map_entries (f : String → α → β) (c : Option (Keyed α)) (key : String) :
    lookup? (c.map (·.map f)) key = (lookup? c key).map (f key) := by
  cases c with
  | none => rfl
  | some m => exact Keyed.get?_map f m key

theorem lookup?_map_values (f : α → β) (c : Option (Keyed α)) (key : String) :
    lookup? (c.map (·.map fun _ value => f value)) key = (lookup? c key).map f :=
  lookup?_map_entries (fun _ => f) c key

theorem lookup?_map_modify (c : Option (Keyed α)) (name key : String) (f : α → α) :
    lookup? (c.map (·.modify name f)) key =
      if key = name then (lookup? c key).map f else lookup? c key := by
  cases c with
  | none => simp
  | some m => exact Keyed.get?_modify m name key f

/-- A collection is determined by whether it is there and by its lookups. -/
theorem eq_of_lookup? {c d : Option (Keyed α)} (hsome : c.isSome = d.isSome)
    (hlookup : ∀ key, lookup? c key = lookup? d key) : c = d := by
  cases c with
  | none => rw [eq_comm, ← Option.not_isSome_iff_eq_none, ← hsome]; simp
  | some m =>
    cases d with
    | none => cases hsome
    | some m' => exact congrArg some (Keyed.ext_get? hlookup)

/-- Changing entries in two steps is changing them by both. -/
theorem map_entries_map_entries (f g : String → α → α) (c : Option (Keyed α)) :
    (c.map (·.map f)).map (·.map g) = c.map (·.map fun key value => g key (f key value)) := by
  cases c with
  | none => rfl
  | some m =>
    refine congrArg some (Keyed.ext_get? fun key => ?_)
    rw [Keyed.get?_map, Keyed.get?_map, Option.map_map, Keyed.get?_map]
    rfl

/-- Changing entries twice is changing them once where that is so of each entry. -/
theorem map_entries_idem {f : String → α → α} (hf : ∀ key value, f key (f key value) = f key value)
    (c : Option (Keyed α)) : (c.map (·.map f)).map (·.map f) = c.map (·.map f) := by
  rw [map_entries_map_entries]
  simp only [hf]

theorem map_entries_self (c : Option (Keyed α)) : c.map (·.map fun _ value => value) = c := by
  refine eq_of_lookup? Option.isSome_map fun key => ?_
  rw [lookup?_map_entries, Option.map_id']

/-- Two collections with the same keys, whose entries are related at every key. -/
structure AlikeEntries (E : α → α → Prop) (c d : Option (Keyed α)) : Prop where
  isSome : c.isSome = d.isSome
  entries : ∀ key, Option.Rel E (lookup? c key) (lookup? d key)

/-- A collection is like that with its values changed, if each value is like the changed one. -/
theorem alikeEntries_map {E : α → α → Prop} {f : α → α} (hf : ∀ value, E value (f value))
    (c : Option (Keyed α)) : AlikeEntries E c (c.map (·.map fun _ value => f value)) where
  isSome := (Option.isSome_map).symm
  entries key := by
    rw [lookup?_map_values]
    cases lookup? c key with
    | none => exact .none
    | some value => exact .some (hf value)

/-- If each value is like one other only, a collection is like one other only. -/
theorem alikeEntries_iff_eq_map {E : α → α → Prop} {f : α → α}
    (hE : ∀ old new, E old new ↔ new = f old) {c d : Option (Keyed α)} :
    AlikeEntries E c d ↔ d = c.map (·.map fun _ value => f value) := by
  constructor
  · intro h
    refine eq_of_lookup? (by rw [Option.isSome_map, h.isSome]) fun key => ?_
    have hentry := h.entries key
    rw [lookup?_map_values]
    generalize lookup? c key = old at hentry ⊢
    generalize lookup? d key = new at hentry ⊢
    cases hentry with
    | none => rfl
    | some hvalue => rw [(hE _ _).1 hvalue, Option.map_some]
  · rintro rfl
    exact alikeEntries_map (fun value => (hE value (f value)).2 rfl) c

theorem mem_valuesOf {c : Option (Keyed α)} {value : α} :
    value ∈ valuesOf c ↔ ∃ key, lookup? c key = some value := by
  cases c with
  | none => simp [valuesOf]
  | some m => exact Keyed.mem_values

theorem forall_mem_valuesOf {c : Option (Keyed α)} {P : α → Prop} :
    (∀ value ∈ valuesOf c, P value) ↔ ∀ key value, lookup? c key = some value → P value := by
  simp only [mem_valuesOf]
  exact ⟨fun h key value hvalue => h value ⟨key, hvalue⟩, fun h value ⟨key, hvalue⟩ => h key value hvalue⟩

/-- Every entry goes by the name that it stands under. -/
def NamesAreKeys (name : α → String) (c : Option (Keyed α)) : Prop :=
  ∀ key value, lookup? c key = some value → name value = key

theorem namesAreKeys_iff {name : α → String} {c : Option (Keyed α)} :
    NamesAreKeys name c ↔ ∀ m ∈ c, ∀ e ∈ m.entries, name e.2 = e.1 := by
  cases c with
  | none => simp [NamesAreKeys]
  | some m =>
    simp only [NamesAreKeys, lookup?_some, Keyed.get?_eq_some_iff_mem, Option.mem_some_iff,
      forall_eq', Prod.forall]

instance (name : α → String) (c : Option (Keyed α)) : Decidable (NamesAreKeys name c) :=
  decidable_of_iff _ namesAreKeys_iff.symm

end IdlDecls
