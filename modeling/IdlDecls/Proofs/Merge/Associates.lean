import IdlDecls.Proofs.Merge.Overridden
import IdlDecls.Proofs.Model.Conventions
import Mathlib.Data.List.Find
import Mathlib.Data.List.Induction

/-!
# Merges of three

Three values can be merged in two groupings, and `Associates` says that both leave results that are
alike. This file takes that from the fields of a definition to the definition, from entries to
collections and from items to lists whose items have identities (`Associates.joined`,
`Associates.collection`, `Associates.byIdentity`); what is asked of the parts is asked only of those
that the three values hold. That the relation leaves one result is needed wherever one of the three
has no value: both groupings then make the same merge.
-/

namespace IdlDecls

open Merge Merging

variable {α : Type}

/-- In both groupings, merges of three values along `R` leave results that `E` relates. -/
def Associates (R : α → α → α → Prop) (E : α → α → Prop) (a b c : α) : Prop :=
  ∀ ⦃ab bc left right⦄, R a b ab → R ab c left → R b c bc → R a bc right → E left right

/-- A relation leaves at most one result. -/
def Functional (R : α → α → α → Prop) : Prop :=
  ∀ ⦃base addition result result'⦄, R base addition result → R base addition result' →
    result = result'

theorem functional_of_merge {join : α → α → Merging α} {R : α → α → α → Prop}
    (hR : ∀ old new merged, join old new = .ok merged ↔ R old new merged) : Functional R :=
  fun _ _ _ _ h h' => Except.ok.inj (((hR _ _ _).2 h).symm.trans ((hR _ _ _).2 h'))

/-! ## Single values -/

/-- Values that an associative operation combines. -/
theorem Associates.operation {f : α → α → α} (hf : ∀ a b c, f (f a b) c = f a (f b c))
    {a b c : α} : Associates (fun old new merged => merged = f old new) Eq a b c := by
  rintro _ _ left right rfl hleft rfl hright
  rw [hleft, hright, hf]

theorem or_or_assoc (a b c : Option α) : c.or (b.or a) = (c.or b).or a :=
  (Option.or_assoc ..).symm

theorem unionNames_concat (base addition : List String) (name : String) :
    unionNames base (addition ++ [name]) =
      if name ∈ unionNames base addition then unionNames base addition
      else unionNames base addition ++ [name] := by
  simp [unionNames]

/-- The induction takes the names of the third list from behind: the last one comes to both unions
or to none. -/
theorem unionNames_assoc (a b c : List String) :
    unionNames (unionNames a b) c = unionNames a (unionNames b c) := by
  induction c using List.reverseRecOn with
  | nil => rfl
  | append_singleton c name ih =>
    rw [unionNames_concat, unionNames_concat b, ih]
    by_cases hname : name ∈ unionNames b c
    · have hmem : name ∈ unionNames a (unionNames b c) := by
        rw [unionNames_eq a, mem_joinedNames]
        exact Or.inr hname
      rw [if_pos hname, if_pos hmem]
    · rw [if_neg hname, unionNames_concat]

theorem joinedNames_assoc (a b c : List String) :
    joinedNames (joinedNames a b) c = joinedNames a (joinedNames b c) := by
  simp only [← unionNames_eq]
  exact unionNames_assoc a b c

theorem joinedNames_nil (base : List String) : joinedNames base [] = base := by
  simp [joinedNames]

/-- The contexts of both sides are there in any case. -/
theorem Exposure.Overridden.contextsOf {base addition result : Option Exposure}
    (h : Exposure.Overridden base addition result) :
    contextsOf result = joinedNames (contextsOf base) (contextsOf addition) := by
  rw [Exposure.Overridden] at h
  by_cases hempty : IdlDecls.contextsOf addition = []
  · rw [if_pos hempty] at h
    rw [h, hempty, joinedNames_nil]
  · rw [if_neg hempty] at h
    obtain ⟨merged, rfl, hmerged⟩ := h
    exact hmerged

theorem exposure_associates {a b c : Option Exposure} :
    Associates Exposure.Overridden Eq a b c := by
  intro ab bc left right hab hleft hbc hright
  have hfunctional : Functional Exposure.Overridden :=
    functional_of_merge fun _ _ _ => exposure_override_iff
  by_cases hc : contextsOf c = []
  · rw [Exposure.Overridden, if_pos hc] at hleft hbc
    subst hleft hbc
    exact hfunctional hab hright
  · have hcontexts : contextsOf bc ≠ [] := by
      rw [hbc.contextsOf]
      intro hnil
      obtain ⟨context, hcontext⟩ := List.exists_mem_of_ne_nil _ hc
      exact List.not_mem_nil (hnil ▸ mem_joinedNames.2 (Or.inr hcontext))
    rw [Exposure.Overridden, if_neg hc] at hleft
    rw [Exposure.Overridden, if_neg hcontexts] at hright
    obtain ⟨l, rfl, hl⟩ := hleft
    obtain ⟨r, rfl, hr⟩ := hright
    refine congrArg some (Exposure.ext_contexts ?_)
    rw [hl, hr, hab.contextsOf, hbc.contextsOf, joinedNames_assoc]

/-- Extra fields are left out of both groupings where they are left out of all three values. -/
theorem extra_eq_empty {base addition result : Extra} (hb : base = ∅) (ha : addition = ∅)
    (h : Extra.Overridden base addition result) : result = ∅ := by
  subst hb ha
  exact Keyed.ext_get? fun key => Joined.none_left_iff.1 (h key)

theorem extra_associates {a b c : Extra} (ha : a = ∅) (hb : b = ∅) (hc : c = ∅) :
    Associates Extra.Overridden Eq a b c := by
  intro ab bc left right hab hleft hbc hright
  rw [extra_eq_empty (extra_eq_empty ha hb hab) hc hleft,
    extra_eq_empty ha (extra_eq_empty hb hc hbc) hright]

/-! ## Values that may be left out, and collections -/

section Collections

variable {R : α → α → α → Prop} {E : α → α → Prop}

theorem Functional.joined (hR : Functional R) : Functional (Joined R) :=
  fun _ _ _ _ h h' => h.unique hR h'

theorem optionRel_refl (hE : ∀ x, E x x) : ∀ o : Option α, Option.Rel E o o
  | none => .none
  | some x => .some (hE x)

theorem optionRel_mono {S T : α → α → Prop} (hST : ∀ x y, S x y → T x y) {a b : Option α}
    (h : Option.Rel S a b) : Option.Rel T a b := by
  cases h with
  | none => exact .none
  | some h => exact .some (hST _ _ h)

theorem eq_of_optionRel {a b : Option α} (h : Option.Rel Eq a b) : a = b := by
  cases h with
  | none => rfl
  | some h => rw [h]

/-- Where one of three is left out, both groupings merge the other two. -/
theorem Associates.joined (hR : Functional R) (hE : ∀ x, E x x) {a b c : Option α}
    (h : ∀ x ∈ a, ∀ y ∈ b, ∀ z ∈ c, Associates R E x y z) :
    Associates (Joined R) (Option.Rel E) a b c := by
  intro ab bc left right hab hleft hbc hright
  cases a with
  | none =>
    rw [Joined.none_left_iff] at hab hright
    subst hab hright
    rw [hR.joined hleft hbc]
    exact optionRel_refl hE _
  | some x =>
    cases b with
    | none =>
      rw [Joined.none_right_iff] at hab
      rw [Joined.none_left_iff] at hbc
      subst hab hbc
      rw [hR.joined hleft hright]
      exact optionRel_refl hE _
    | some y =>
      cases c with
      | none =>
        rw [Joined.none_right_iff] at hleft hbc
        subst hleft hbc
        rw [hR.joined hab hright]
        exact optionRel_refl hE _
      | some z =>
        obtain ⟨xy, rfl, hxy⟩ := Joined.some_some_iff.1 hab
        obtain ⟨l, rfl, hl⟩ := Joined.some_some_iff.1 hleft
        obtain ⟨yz, rfl, hyz⟩ := Joined.some_some_iff.1 hbc
        obtain ⟨r, rfl, hr⟩ := Joined.some_some_iff.1 hright
        exact .some (h x rfl y rfl z rfl hxy hl hyz hr)

/-- Values that may be left out, combined by an associative operation. -/
theorem Associates.optional {f : α → α → α} (hf : ∀ a b c, f (f a b) c = f a (f b c))
    {a b c : Option α} : Associates (Joined fun old new merged => merged = f old new) Eq a b c :=
  fun _ _ _ _ hab hleft hbc hright => eq_of_optionRel <|
    Associates.joined (fun _ _ _ _ h h' => h.trans h'.symm) (fun _ => rfl)
      (fun _ _ _ _ _ _ => .operation hf) hab hleft hbc hright

theorem AlikeEntries.eq {c d : Option (Keyed α)} (h : AlikeEntries Eq c d) : c = d := by
  have hentries key := eq_of_optionRel (h.entries key)
  exact eq_of_lookup? h.isSome hentries

theorem joined_lookup? {base addition result : Option (Keyed α)}
    (h : Joined (ByKey R) base addition result) (key : String) :
    Joined R (lookup? base key) (lookup? addition key) (lookup? result key) := by
  cases h with
  | base => exact .base _
  | addition => exact .addition _
  | both h => exact h key

theorem Associates.collection (hR : Functional R) (hE : ∀ x, E x x) {P : α → Prop}
    {a b c : Option (Keyed α)} (ha : EachEntry (fun _ => P) a) (hb : EachEntry (fun _ => P) b)
    (hc : EachEntry (fun _ => P) c) (h : ∀ x y z, P x → P y → P z → Associates R E x y z) :
    Associates (Joined (ByKey R)) (AlikeEntries E) a b c := by
  intro ab bc left right hab hleft hbc hright
  refine ⟨?_, fun key => ?_⟩
  · rw [hleft.isSome_eq, hab.isSome_eq, hright.isSome_eq, hbc.isSome_eq, Bool.or_assoc]
  · refine Associates.joined hR hE ?_ (joined_lookup? hab key) (joined_lookup? hleft key)
      (joined_lookup? hbc key) (joined_lookup? hright key)
    exact fun x hx y hy z hz => h x y z (ha key x hx) (hb key y hy) (hc key z hz)

end Collections

/-! ## Lists whose items have identities -/

section Identified

variable {identity : α → String} {R : α → α → α → Prop} {E : α → α → Prop}

/-- An item of the base is joined with the item of its identity, if there is one. -/
theorem itemJoined_iff {addition : List α} {old new : α} :
    ItemJoined identity R addition old new ↔
      Joined R (some old) (addition.find? fun item => SameIdentity identity old item)
        (some new) := by
  rw [ItemJoined]
  cases addition.find? fun item => SameIdentity identity old item with
  | none => simp
  | some item => simp

/-- Related lists have their first item of a kind at the same place, if related items are of the
kind together. -/
theorem find?_rel {S : α → α → Prop} {p : α → Bool} (hp : ∀ x y, S x y → p y = p x) :
    ∀ {l m : List α}, List.Forall₂ S l m → Option.Rel S (l.find? p) (m.find? p)
  | _, _, .nil => .none
  | x :: _, y :: _, .cons hhead htail => by
    rw [List.find?_cons, List.find?_cons, hp x y hhead]
    cases p x with
    | true => exact .some hhead
    | false => exact find?_rel hp htail

/-- Lists in parallel to a third, whose items a condition relates one by one. -/
theorem forall₂_of_parallel {S T U : α → α → Prop} : ∀ {a k l r : List α},
    (∀ x ∈ a, ∀ y z w, S x y → T y z → U x w → E z w) → List.Forall₂ S a k →
      List.Forall₂ T k l → List.Forall₂ U a r → List.Forall₂ E l r
  | _, _, _, _, _, .nil, .nil, .nil => .nil
  | _, _, _, _, h, .cons hS hS', .cons hT hT', .cons hU hU' =>
    .cons (h _ (List.mem_cons_self ..) _ _ _ hS hT hU)
      (forall₂_of_parallel (fun x hx => h x (List.mem_cons_of_mem _ hx)) hS' hT' hU')

variable (hname : ∀ old new merged, R old new merged → identity merged = identity old)

include hname

theorem identity_of_itemJoined {addition : List α} {old new : α}
    (h : ItemJoined identity R addition old new) : identity new = identity old := by
  rw [ItemJoined] at h
  split at h
  · rw [h]
  · exact hname _ _ _ h

theorem identities_of_forall₂ {addition : List α} : ∀ {l kept : List α},
    List.Forall₂ (ItemJoined identity R addition) l kept → kept.map identity = l.map identity
  | _, _, .nil => rfl
  | _, _, .cons hhead htail => by
    rw [List.map_cons, List.map_cons, identity_of_itemJoined hname hhead,
      identities_of_forall₂ htail]

/-- **What is found under an identity is joined**: the first item of the base and the first item of
the addition. -/
theorem ByIdentity.find? {base addition result : List α}
    (h : ByIdentity identity R base addition result) (old : α) :
    Joined R (base.find? fun item => SameIdentity identity old item)
      (addition.find? fun item => SameIdentity identity old item)
      (result.find? fun item => SameIdentity identity old item) := by
  obtain ⟨kept, hkept, rfl⟩ := h
  have hrel := find?_rel (p := fun item => SameIdentity identity old item) (fun x y hxy =>
    decide_eq_decide.2 (by rw [SameIdentity, SameIdentity, identity_of_itemJoined hname hxy])) hkept
  rw [List.find?_append]
  cases hbase : base.find? fun item => SameIdentity identity old item with
  | some x =>
    rw [hbase] at hrel
    have hsame : SameIdentity identity old x := by simpa using List.find?_some hbase
    generalize kept.find? (fun item => SameIdentity identity old item) = found at hrel ⊢
    cases hrel with
    | some hjoined =>
      have hident : ∀ item, SameIdentity identity x item ↔ SameIdentity identity old item := by
        intro item
        rw [SameIdentity, SameIdentity, hsame.2]
      rw [itemJoined_iff] at hjoined
      simpa only [hident, Option.some_or] using hjoined
  | none =>
    rw [hbase] at hrel
    have hnone : ∀ x ∈ base, ¬ SameIdentity identity old x := by
      simpa [List.find?_eq_none] using hbase
    have hnew : (newItems identity base addition).find?
        (fun item => SameIdentity identity old item) =
          addition.find? fun item => SameIdentity identity old item := by
      rw [newItems, List.find?_filter]
      refine List.find?_congr fun item _ => ?_
      have hfresh : SameIdentity identity old item →
          ∀ x ∈ base, ¬ SameIdentity identity x item := by
        intro hitem x hx hxitem
        exact hnone x hx ⟨hxitem.2 ▸ hitem.1, hitem.2.trans hxitem.2.symm⟩
      by_cases hitem : SameIdentity identity old item
      · simpa [hitem] using hfresh hitem
      · simp [hitem]
    generalize kept.find? (fun item => SameIdentity identity old item) = found at hrel ⊢
    cases hrel
    rw [Option.none_or, hnew]
    exact .addition _

/-- The identities of both sides are there. -/
theorem ByIdentity.forall_not_same_iff {base addition result : List α}
    (h : ByIdentity identity R base addition result) (item : α) :
    (∀ old ∈ result, ¬ SameIdentity identity old item) ↔
      (∀ old ∈ base, ¬ SameIdentity identity old item) ∧
        ∀ old ∈ addition, ¬ SameIdentity identity old item := by
  obtain ⟨kept, hkept, rfl⟩ := h
  have hmap : ∀ l : List α, (∀ old ∈ l, ¬ SameIdentity identity old item) ↔
      ∀ name ∈ l.map identity, ¬ (identity item ≠ "" ∧ name = identity item) := by
    simp [SameIdentity]
  have hbase : (∀ old ∈ kept, ¬ SameIdentity identity old item) ↔
      ∀ old ∈ base, ¬ SameIdentity identity old item := by
    rw [hmap kept, hmap base, identities_of_forall₂ hname hkept]
  rw [List.forall_mem_append, hbase]
  refine and_congr_right fun hnone => ?_
  constructor
  · intro hnew old hold hsame
    refine hnew old (List.mem_filter.2 ⟨hold, ?_⟩) hsame
    simp only [decide_eq_true_eq]
    exact fun x hx hxold => hnone x hx ⟨hsame.1, hxold.2.trans hsame.2⟩
  · exact fun haddition old hold => haddition old (List.mem_filter.1 hold).1

/-- The items that are new to both other lists, in either grouping. -/
theorem newItems_assoc {a b ab : List α} (hab : ByIdentity identity R a b ab) (c : List α) :
    newItems identity ab c = newItems identity a (newItems identity b c) := by
  rw [newItems, newItems, newItems, List.filter_filter]
  refine List.filter_congr fun item _ => ?_
  rw [← Bool.decide_and, decide_eq_decide]
  exact hab.forall_not_same_iff hname item

/-- An item of the first list meets the same items in both groupings. -/
theorem kept_associates (hR : Functional R) (hE : ∀ x, E x x) {b c bc : List α}
    (hbc : ByIdentity identity R b c bc) {x xb left right : α}
    (h : ∀ y ∈ b, ∀ z ∈ c, Associates R E x y z) (hxb : ItemJoined identity R b x xb)
    (hleft : ItemJoined identity R c xb left) (hright : ItemJoined identity R bc x right) :
    E left right := by
  have hident := identity_of_itemJoined hname hxb
  rw [itemJoined_iff] at hxb hleft hright
  simp only [SameIdentity, hident] at hleft
  have hrel : Option.Rel E (some left) (some right) := by
    refine Associates.joined hR hE ?_ hxb hleft (hbc.find? hname x) hright
    rintro _ ⟨⟩ y hy z hz
    exact h y (List.mem_of_find?_eq_some hy) z (List.mem_of_find?_eq_some hz)
  exact Option.rel_some_some.1 hrel

omit hname in
theorem itemJoined_rightUnique (hR : Functional R) (addition : List α) :
    Relator.RightUnique (ItemJoined identity R addition) :=
  fun _ _ _ h h' => Option.some.inj (hR.joined (itemJoined_iff.1 h) (itemJoined_iff.1 h'))

/-- The items that the second list brings to the first, joined with the third before or after. -/
theorem newItems_joined (hR : Functional R) {a b c kept joined : List α}
    (hkept : List.Forall₂ (ItemJoined identity R c) b kept)
    (hjoined : List.Forall₂ (ItemJoined identity R c) (newItems identity a b) joined) :
    joined = newItems identity a kept := by
  have hfilter : List.Forall₂ (ItemJoined identity R c) (newItems identity a b)
      (newItems identity a kept) := by
    refine List.rel_filter (fun x y hxy => ?_) hkept
    have hsame : ∀ old, SameIdentity identity old y ↔ SameIdentity identity old x := fun old => by
      rw [SameIdentity, SameIdentity, identity_of_itemJoined hname hxy]
    simp only [decide_eq_true_eq, hsame]
  exact List.right_unique_forall₂' (itemJoined_rightUnique hR c) hjoined hfilter

omit hname in
theorem Functional.byIdentity (hR : Functional R) : Functional (ByIdentity identity R) :=
  fun _ _ _ _ h h' => h.unique hR h'

/-- **Lists whose items have identities.** An item of the first list meets the same items in both
groupings, and an item that the second list brings meets its item of the third before or after it
has come to the first. -/
theorem Associates.byIdentity (hR : Functional R) (hE : ∀ x, E x x) {a b c : List α}
    (h : ∀ x ∈ a, ∀ y ∈ b, ∀ z ∈ c, Associates R E x y z) :
    Associates (ByIdentity identity R) (List.Forall₂ E) a b c := by
  intro ab bc left right hab hleft hbc hright
  have hnew := newItems_assoc hname hab c
  have hitem : ∀ x ∈ a, ∀ xb l r, ItemJoined identity R b x xb → ItemJoined identity R c xb l →
      ItemJoined identity R bc x r → E l r :=
    fun x hx _ _ _ => kept_associates hname hR hE hbc (h x hx)
  obtain ⟨keptA, hkeptA, rfl⟩ := hab
  obtain ⟨joined, hjoined, rfl⟩ := hleft
  obtain ⟨keptB, hkeptB, rfl⟩ := hbc
  obtain ⟨keptR, hkeptR, rfl⟩ := hright
  obtain ⟨front, back, hfront, hback, rfl⟩ := forall₂_append_split hjoined
  have hsplit : newItems identity a (keptB ++ newItems identity b c) =
      newItems identity a keptB ++ newItems identity a (newItems identity b c) :=
    List.filter_append ..
  rw [hnew, hsplit, newItems_joined hname hR hkeptB hback, List.append_assoc]
  refine List.rel_append ?_ (List.forall₂_same.2 fun x _ => hE x)
  exact forall₂_of_parallel hitem hkeptA hfront hkeptR

end Identified

end IdlDecls
