import IdlDecls.Proofs.Merge.Inversion

/-!
# Fields where the addition wins

Under `override` no field ends in a conflict. This file says, for each kind of field, what the
merge then leaves: a single value is the addition's where it gives one, names and contexts are the
base's with the new ones behind them, and nested values and collections are joined by whatever
relation joins what they hold.
-/

namespace IdlDecls

open Merge Merging

variable {α : Type}

/-! ## Names -/

/-- The names of a list, and behind them the names of another that are not there yet, each once. -/
def joinedNames (base addition : List String) : List String :=
  base ++ (addition.filter (· ∉ base)).eraseDups

theorem mem_joinedNames {base addition : List String} {name : String} :
    name ∈ joinedNames base addition ↔ name ∈ base ∨ name ∈ addition := by
  rw [joinedNames, List.mem_append, List.mem_eraseDups, List.mem_filter, decide_eq_true_eq]
  by_cases h : name ∈ base <;> simp [h]

theorem unionNames_cons (base addition : List String) (name : String) :
    unionNames base (name :: addition) =
      if name ∈ base then unionNames base addition else unionNames (base ++ [name]) addition := by
  simp only [unionNames, List.foldl_cons, List.contains_eq_mem, decide_eq_true_eq]
  split <;> rfl

/-- The induction carries the names that have come to the base: a name that is there already is
left out wherever it comes again. -/
theorem unionNames_eq : ∀ base addition, unionNames base addition = joinedNames base addition
  | base, [] => by simp [unionNames, joinedNames]
  | base, name :: addition => by
    rw [unionNames_cons]
    by_cases h : name ∈ base
    · rw [if_pos h, unionNames_eq base addition, joinedNames, joinedNames,
        List.filter_cons_of_neg (by simpa using h)]
    · rw [if_neg h, unionNames_eq (base ++ [name]) addition, joinedNames, joinedNames,
        List.filter_cons_of_pos (by simpa using h), List.eraseDups_cons, List.filter_filter,
        List.append_assoc, List.singleton_append]
      congr 4
      funext x
      by_cases hx : x = name <;> simp [hx]

/-! ## Single values -/

/-- A single value is the addition's where the addition has one. -/
theorem scalar_override_iff [DecidableEq α] {base addition result : Option α} :
    scalar .override base addition = .ok result ↔ result = addition.or base := by
  have hvalue : scalar .override base addition = .ok (addition.or base) := by
    rcases base with _ | old
    · rw [scalar, optional_none_left, Option.or_none]
    · rcases addition with _ | new
      · rfl
      · simp only [scalar, Merge.optional, settle_override, Option.some_or]
        rfl
  rw [hvalue, Except.ok.injEq, eq_comm]

theorem scalar_override_total [DecidableEq α] (base addition : Option α) :
    ∃ result, scalar .override base addition = .ok result :=
  ⟨_, scalar_override_iff.2 rfl⟩

/-- A set value grows by what the addition holds. -/
theorem grown_override_iff [DecidableEq α] {union : α → α → α} {base addition result : Option α} :
    grown .override union base addition = .ok result ↔
      Joined (fun old new merged => merged = union old new) base addition result := by
  rcases base with _ | old
  · rw [grown, optional_none_left, Except.ok.injEq, Joined.none_left_iff, eq_comm]
  · rcases addition with _ | new
    · rw [grown, optional_none, Except.ok.injEq, Joined.none_right_iff, eq_comm]
    · simp only [grown, Merge.optional, settle_override, Joined.some_some_iff, map_eq_ok_iff,
        Except.ok.injEq]
      constructor
      · rintro ⟨_, rfl, rfl⟩; exact ⟨_, rfl, rfl⟩
      · rintro ⟨_, rfl, rfl⟩; exact ⟨_, rfl, rfl⟩

theorem grown_override_total [DecidableEq α] (union : α → α → α) (base addition : Option α) :
    ∃ result, grown .override union base addition = .ok result := by
  obtain ⟨result, h⟩ := Joined.exists_result (R := fun old new merged => merged = union old new)
    (fun old new => ⟨union old new, rfl⟩) base addition
  exact ⟨result, grown_override_iff.2 h⟩

/-- What a nested value merges to, in terms of what its relation leaves. -/
theorem optional_eq_ok_iff {join : α → α → Merging α} {base addition result : Option α} :
    Merge.optional join base addition = .ok result ↔
      Joined (fun old new merged => join old new = .ok merged) base addition result := by
  rcases base with _ | old
  · rw [optional_none_left, Except.ok.injEq, Joined.none_left_iff, eq_comm]
  · rcases addition with _ | new
    · rw [optional_none, Except.ok.injEq, Joined.none_right_iff, eq_comm]
    · rw [Merge.optional, map_eq_ok_iff, Joined.some_some_iff]
      constructor
      · rintro ⟨merged, hm, rfl⟩; exact ⟨merged, rfl, hm⟩
      · rintro ⟨merged, rfl, hm⟩; exact ⟨merged, hm, rfl⟩

/-- A nested value merges if what both sides have does. -/
theorem optional_total {join : α → α → Merging α} (hjoin : ∀ old new, ∃ m, join old new = .ok m)
    (base addition : Option α) : ∃ result, Merge.optional join base addition = .ok result := by
  obtain ⟨result, h⟩ := Joined.exists_result hjoin base addition
  exact ⟨result, optional_eq_ok_iff.2 h⟩

/-! ## JSON values -/

/-- A JSON value gives way to one that differs by more than the signs of zeros. -/
def Json.replacedBy (base addition : Json) : Json :=
  if addition.unsignedZeros = base.unsignedZeros then base else addition

theorem settleJson_override (base addition : Json) :
    settleJson .override base addition = .ok (base.replacedBy addition) := by
  rw [settleJson, settleBy, Json.replacedBy]
  by_cases h : addition.unsignedZeros = base.unsignedZeros
  · rw [if_pos h, if_pos h]
  · rw [if_neg h, if_neg h]

theorem literal_override_iff {base addition result : Option Json} :
    literal .override base addition = .ok result ↔
      Joined (fun old new merged => merged = old.replacedBy new) base addition result := by
  rw [literal, optional_eq_ok_iff]
  refine Joined.congr_iff fun old new merged => ?_
  rw [settleJson_override, Except.ok.injEq, eq_comm]

theorem literal_override_total (base addition : Option Json) :
    ∃ result, literal .override base addition = .ok result := by
  obtain ⟨result, h⟩ := Joined.exists_result (R := fun old new merged => merged = old.replacedBy new)
    (fun old new => ⟨old.replacedBy new, rfl⟩) base addition
  exact ⟨result, literal_override_iff.2 h⟩

mutual

/-- What an addition makes of a JSON value: objects are joined by key and arrays end to end, and any
other value is replaced. -/
def Json.overriddenBy : Json → Json → Json
  | .obj base, .obj addition => .obj (overriddenFields base addition)
  | .arr base, .arr addition => .arr (base ++ addition)
  | base, addition => base.replacedBy addition

/-- What the fields of an addition make of those of an object. -/
def Json.overriddenFields : List (String × Json) → List (String × Json) → List (String × Json)
  | base, [] => base
  | base, (key, value) :: rest =>
    match Entries.get? base key with
    | none => overriddenFields (Entries.insert key value base) rest
    | some old => overriddenFields (Entries.insert key (old.overriddenBy value) base) rest

end

mutual

theorem json_override : ∀ base addition : Json,
    json .override base addition = .ok (base.overriddenBy addition)
  | .obj base, .obj addition => by
    rw [json, jsonFields_override base addition, Json.overriddenBy]
    rfl
  | .arr base, .arr addition => by rw [json, Json.overriddenBy]
  | .null, b | .bool _, b | .num _, b | .str _, b => by
    cases b <;> simp only [json, Json.overriddenBy, settleJson_override]
  | .obj _, .null | .obj _, .bool _ | .obj _, .num _ | .obj _, .str _ | .obj _, .arr _ => by
    simp only [json, Json.overriddenBy, settleJson_override]
  | .arr _, .null | .arr _, .bool _ | .arr _, .num _ | .arr _, .str _ | .arr _, .obj _ => by
    simp only [json, Json.overriddenBy, settleJson_override]

theorem jsonFields_override : ∀ base addition : List (String × Json),
    jsonFields .override base addition = .ok (Json.overriddenFields base addition)
  | base, [] => by rw [jsonFields, Json.overriddenFields]
  | base, (key, value) :: rest => by
    rw [jsonFields, Json.overriddenFields]
    cases hold : Entries.get? base key with
    | none => exact jsonFields_override _ rest
    | some old =>
      simp only [json_override old value, within_ok]
      exact jsonFields_override _ rest

end

/-- **Objects are joined by key**, so what becomes of a field depends on nothing beside it. -/
theorem get?_overriddenFields {addition : List (String × Json)} (h : Entries.Ascending addition)
    (base : List (String × Json)) (key : String) :
    Joined (fun old new merged => merged = old.overriddenBy new) (Entries.get? base key)
      (Entries.get? addition key) (Entries.get? (Json.overriddenFields base addition) key) := by
  induction addition generalizing base with
  | nil => rw [Json.overriddenFields]; exact .base _
  | cons e rest ih =>
    obtain ⟨k, value⟩ := e
    obtain ⟨hhead, htail⟩ := List.pairwise_cons.1 h
    obtain ⟨added, hadded, hnext⟩ : ∃ added,
        Joined (fun old new merged => merged = old.overriddenBy new) (Entries.get? base k)
          (some value) (some added) ∧
        Json.overriddenFields base ((k, value) :: rest) =
          Json.overriddenFields (Entries.insert k added base) rest := by
      cases hold : Entries.get? base k with
      | none => exact ⟨value, .addition _, by rw [Json.overriddenFields, hold]⟩
      | some old =>
        exact ⟨old.overriddenBy value, .both rfl, by rw [Json.overriddenFields, hold]⟩
    have ih := ih htail (Entries.insert k added base)
    rw [hnext, Entries.get?]
    rw [Entries.get?_insert] at ih
    by_cases hk : k = key
    · -- the key of the first field does not come again
      subst hk
      have hnone : Entries.get? rest k = none := Entries.get?_eq_none_of_lt hhead
      rw [if_pos rfl, hnone, Joined.none_right_iff] at ih
      rw [if_pos rfl, ih]
      exact hadded
    · rw [if_neg hk] at ih ⊢
      exact ih

/-- The extra fields that a merge leaves: each is joined with the field of its name. -/
def Extra.Overridden (base addition result : Extra) : Prop :=
  ∀ key, Joined (fun old new merged => merged = old.overriddenBy new) (base.get? key)
    (addition.get? key) (result.get? key)

theorem extra_override_total (key : String) (old new : Json) :
    ∃ merged, within key (json .override old new) = .ok merged :=
  ⟨old.overriddenBy new, within_eq_ok_iff.2 (json_override old new)⟩

theorem extras_override_total (base addition : Extra) :
    ∃ result, extras .override base addition = .ok result :=
  Keyed.joinM_total extra_override_total base addition

theorem extras_override_iff {base addition result : Extra} :
    extras .override base addition = .ok result ↔ Extra.Overridden base addition result := by
  rw [extras, Keyed.joinM_eq_ok_iff, Extra.Overridden]
  refine forall_congr' fun key => Joined.congr_iff fun old new merged => ?_
  rw [within_eq_ok_iff, json_override, Except.ok.injEq, eq_comm]

/-! ## Exposures -/

/-- The contexts of an exposure that may be left out. -/
def contextsOf (e : Option Exposure) : List String := (e.map Exposure.contexts).getD []

/-- The exposure that a merge leaves: the contexts of the base with the new ones behind them. An
addition without contexts changes nothing. -/
def Exposure.Overridden (base addition result : Option Exposure) : Prop :=
  if contextsOf addition = [] then result = base
  else ∃ merged, result = some merged ∧
    merged.contexts = joinedNames (contextsOf base) (contextsOf addition)

theorem nonempty?_of_contextsOf {e : Option Exposure} (h : contextsOf e = []) :
    Exposure.nonempty? e = none := by
  cases e with
  | none => rfl
  | some e => simpa [Exposure.nonempty?, Exposure.isEmpty, contextsOf] using h

theorem nonempty?_of_contextsOf_ne {e : Option Exposure} (h : contextsOf e ≠ []) :
    Exposure.nonempty? e = e := by
  cases e with
  | none => rfl
  | some e => simpa [Exposure.nonempty?, Exposure.isEmpty, contextsOf] using h

/-- Inserting contexts one by one is uniting them: none of an exposure is blank. -/
theorem contexts_insertAll (e : Exposure) {contexts : List String}
    (h : ∀ c ∈ contexts, Text.blank c = false) :
    (e.insertAll contexts).contexts = unionNames e.contexts contexts := by
  induction contexts generalizing e with
  | nil => rfl
  | cons c rest ih =>
    have hblank : Text.blank c = false := h c (by simp)
    have ih := ih (e.insert c) fun x hx => h x (by simp [hx])
    rw [unionNames_cons]
    refine Eq.trans (show _ = ((e.insert c).insertAll rest).contexts from rfl) ?_
    rw [ih, Exposure.contexts_insert]
    by_cases hc : c ∈ e.contexts
    · simp [Exposure.accepts, Exposure.contains, hblank, hc]
    · simp [Exposure.accepts, Exposure.contains, hblank, hc]

theorem contexts_extend (e other : Exposure) :
    (e.extend other).contexts = joinedNames e.contexts other.contexts := by
  rw [Exposure.extend, contexts_insertAll e other.nonblank, unionNames_eq]

theorem eraseDups_of_nodup : ∀ {l : List String}, l.Nodup → l.eraseDups = l
  | [], _ => rfl
  | c :: rest, h => by
    obtain ⟨hc, hrest⟩ := List.nodup_cons.1 h
    have hfilter : rest.filter (fun x => !x == c) = rest := by
      refine List.filter_eq_self.2 fun x hx => ?_
      have hne : x ≠ c := fun heq => hc (heq ▸ hx)
      simp [hne]
    rw [List.eraseDups_cons, hfilter, eraseDups_of_nodup hrest]

theorem joinedNames_nil_contexts (e : Exposure) : joinedNames [] e.contexts = e.contexts := by
  simp only [joinedNames, List.not_mem_nil, not_false_eq_true, decide_true, List.filter_true,
    List.nil_append]
  exact eraseDups_of_nodup e.nodup

theorem exposure_override_iff {base addition result : Option Exposure} :
    exposure .override base addition = .ok result ↔ Exposure.Overridden base addition result := by
  rw [Exposure.Overridden]
  by_cases h : contextsOf addition = []
  · rw [if_pos h, exposure, nonempty?_of_contextsOf h, Except.ok.injEq, eq_comm]
  · obtain _ | new := addition
    · exact absurd rfl h
    rw [if_neg h, exposure, nonempty?_of_contextsOf_ne h, grown_override_iff]
    by_cases hb : contextsOf base = []
    · rw [nonempty?_of_contextsOf hb, hb, Joined.none_left_iff]
      constructor
      · rintro rfl
        exact ⟨new, rfl, (joinedNames_nil_contexts new).symm⟩
      · rintro ⟨merged, rfl, hm⟩
        rw [Exposure.ext_contexts (hm.trans (joinedNames_nil_contexts new))]
    · obtain _ | old := base
      · exact absurd rfl hb
      rw [nonempty?_of_contextsOf_ne hb, Joined.some_some_iff]
      refine exists_congr fun merged => and_congr_right fun _ => ?_
      constructor
      · rintro rfl
        exact contexts_extend old new
      · intro hm
        exact Exposure.ext_contexts (hm.trans (contexts_extend old new).symm)

theorem exposure_override_total (base addition : Option Exposure) :
    ∃ result, exposure .override base addition = .ok result := by
  rw [exposure]
  cases Exposure.nonempty? addition with
  | none => exact ⟨base, rfl⟩
  | some value => exact grown_override_total Exposure.extend _ _

/-! ## Collections -/

/-- Two collections joined at every key. -/
def ByKey (R : α → α → α → Prop) (base addition result : Keyed α) : Prop :=
  ∀ key, Joined R (base.get? key) (addition.get? key) (result.get? key)

theorem shared_total {level : Policy} {join : α → α → Merging α} (hlevel : level ≠ .reject)
    (hjoin : ∀ old new, ∃ m, join old new = .ok m) (key : String) (old new : α) :
    ∃ m, shared level key join old new = .ok m := by
  obtain ⟨m, hm⟩ := hjoin old new
  exact ⟨m, shared_eq_ok_iff.2 ⟨hlevel, hm⟩⟩

theorem keyed_eq_ok_iff {level : Policy} {join : α → α → Merging α} {R : α → α → α → Prop}
    (hlevel : level ≠ .reject) (hR : ∀ old new m, join old new = .ok m ↔ R old new m)
    {base addition result : Keyed α} :
    keyed level join base addition = .ok result ↔ ByKey R base addition result := by
  rw [keyed, Keyed.joinM_eq_ok_iff, ByKey]
  refine forall_congr' fun key => Joined.congr_iff fun old new merged => ?_
  rw [shared_eq_ok_iff, and_iff_right hlevel, hR]

/-- **Entries are joined at every key**: those of one side stay as they are, and those of both are
joined. -/
theorem collection_eq_ok_iff {level : Policy} {field entries : String} {join : α → α → Merging α}
    {R : α → α → α → Prop} (hlevel : level ≠ .reject)
    (hR : ∀ old new m, join old new = .ok m ↔ R old new m) {base addition result : Option (Keyed α)} :
    collection level field entries join base addition = .ok result ↔
      Joined (ByKey R) base addition result := by
  rw [collection, within_eq_ok_iff, optional_eq_ok_iff]
  refine Joined.congr_iff fun old new merged => ?_
  rw [within_eq_ok_iff, keyed_eq_ok_iff hlevel hR]

theorem collection_total {level : Policy} {field entries : String} {join : α → α → Merging α}
    (hlevel : level ≠ .reject) (hjoin : ∀ old new, ∃ m, join old new = .ok m)
    (base addition : Option (Keyed α)) :
    ∃ result, collection level field entries join base addition = .ok result := by
  have hkeyed : ∀ old new, ∃ m, within entries (keyed level join old new) = .ok m := by
    intro old new
    obtain ⟨m, hm⟩ := Keyed.joinM_total (shared_total hlevel hjoin) old new
    exact ⟨m, within_eq_ok_iff.2 hm⟩
  obtain ⟨result, h⟩ := optional_total hkeyed base addition
  exact ⟨result, within_eq_ok_iff.2 h⟩

end IdlDecls
