import IdlDecls.Merge.Field
import IdlDecls.Proofs.Keyed.Joined
import Mathlib.Data.List.Forall2

/-!
# Lists whose items have identities

A merge of such lists takes the items of the addition one after the other and puts each into the
first item with its identity or at the end. Where no identity repeats, the order of these steps does
not show: every item of the base has merged with the one item of the addition that shares its
identity, and the others follow in their order (`ByIdentity`, `identified_eq_ok_iff`).
-/

namespace IdlDecls

open Merge Merging

variable {α : Type}

/-! ## Identities -/

/-- No identity of a list repeats; items with the empty identity have none. -/
def IdentitiesDistinct (identity : α → String) (l : List α) : Prop :=
  l.Pairwise fun a b => identity a = identity b → identity a = ""

instance (identity : α → String) (l : List α) : Decidable (IdentitiesDistinct identity l) :=
  inferInstanceAs (Decidable (List.Pairwise _ _))

theorem identitiesDistinct_iff {identity : α → String} {l : List α} :
    IdentitiesDistinct identity l ↔ (l.map identity).Pairwise fun a b => a = b → a = "" := by
  rw [List.pairwise_map, IdentitiesDistinct]

/-- An item of an addition goes by the identity of an item of the base. -/
def SameIdentity (identity : α → String) (old item : α) : Prop :=
  identity item ≠ "" ∧ identity old = identity item

instance (identity : α → String) (old item : α) : Decidable (SameIdentity identity old item) :=
  inferInstanceAs (Decidable (_ ∧ _))

/-- What becomes of an item of the base: the item of the addition with its identity is merged into
it by `R`. -/
def ItemJoined (identity : α → String) (R : α → α → α → Prop) (addition : List α) (old new : α) :
    Prop :=
  match addition.find? fun item => SameIdentity identity old item with
  | none => new = old
  | some item => R old item new

/-- The items of an addition whose identity no item of the base has. -/
def newItems (identity : α → String) (base addition : List α) : List α :=
  addition.filter fun item => ∀ old ∈ base, ¬ SameIdentity identity old item

/-- A list is the base with every item joined, and the new items of the addition behind it. -/
def ByIdentity (identity : α → String) (R : α → α → α → Prop) (base addition result : List α) :
    Prop :=
  ∃ kept, List.Forall₂ (ItemJoined identity R addition) base kept ∧
    result = kept ++ newItems identity base addition

/-! ## Laws of the specification -/

section Specification

variable {identity : α → String} {R : α → α → α → Prop}

theorem itemJoined_of_none {addition : List α} {old new : α}
    (h : ∀ item ∈ addition, ¬ SameIdentity identity old item) :
    ItemJoined identity R addition old new ↔ new = old := by
  have hfind : (addition.find? fun item => SameIdentity identity old item) = none := by
    simpa [List.find?_eq_none] using h
  simp only [ItemJoined, hfind]

theorem itemJoined_cons_of_same {item old new : α} {rest : List α}
    (h : SameIdentity identity old item) :
    ItemJoined identity R (item :: rest) old new ↔ R old item new := by
  simp [ItemJoined, h]

theorem itemJoined_cons_of_not_same {item old new : α} {rest : List α}
    (h : ¬ SameIdentity identity old item) :
    ItemJoined identity R (item :: rest) old new ↔ ItemJoined identity R rest old new := by
  simp [ItemJoined, h]

/-- A functional relation leaves one result. -/
theorem ByIdentity.unique (hR : ∀ old new m m', R old new m → R old new m' → m = m')
    {base addition result result' : List α} (h : ByIdentity identity R base addition result)
    (h' : ByIdentity identity R base addition result') : result = result' := by
  have hitem : ∀ old new new', ItemJoined identity R addition old new →
      ItemJoined identity R addition old new' → new = new' := by
    intro old new new' hn hn'
    simp only [ItemJoined] at hn hn'
    split at hn
    · rename_i hfind; rw [hfind] at hn'; exact hn.trans hn'.symm
    · rename_i item hfind; rw [hfind] at hn'; exact hR old item new new' hn hn'
  have hkept : ∀ {l kept kept' : List α}, List.Forall₂ (ItemJoined identity R addition) l kept →
      List.Forall₂ (ItemJoined identity R addition) l kept' → kept = kept' := by
    intro l kept kept' hk hk'
    induction hk generalizing kept' with
    | nil => cases hk'; rfl
    | cons hhead _ ih =>
      cases hk' with
      | cons hhead' htail' => rw [hitem _ _ _ hhead hhead', ih htail']
  obtain ⟨kept, hk, rfl⟩ := h
  obtain ⟨kept', hk', rfl⟩ := h'
  rw [hkept hk hk']

/-- Without a base, the result is the addition. -/
theorem byIdentity_nil_iff {addition result : List α} :
    ByIdentity identity R [] addition result ↔ result = addition := by
  simp [ByIdentity, newItems]

theorem forall₂_append_split {β : Type} {S : α → β → Prop} :
    ∀ {l m : List α} {u : List β}, List.Forall₂ S (l ++ m) u →
      ∃ v w, List.Forall₂ S l v ∧ List.Forall₂ S m w ∧ u = v ++ w
  | [], _, u, h => ⟨[], u, .nil, h, rfl⟩
  | _ :: _, _, _, .cons hhead htail => by
    obtain ⟨v, w, hv, hw, rfl⟩ := forall₂_append_split htail
    exact ⟨_ :: v, w, .cons hhead hv, hw, rfl⟩

end Specification

/-! ## The merge -/

section Merge

variable {level : Policy} {identity : α → String} {join : α → α → Merging α}

theorem shared_eq_ok_iff {name : String} {old new merged : α} :
    shared level name join old new = .ok merged ↔ level ≠ .reject ∧ join old new = .ok merged := by
  rw [shared, within_eq_ok_iff]
  by_cases h : level = .reject
  · simp [h, conflict]
  · simp [h]

theorem identifiedItem_cons (old : α) (rest : List α) (item : α) :
    identifiedItem level identity join (old :: rest) item =
      if SameIdentity identity old item then
        (· :: rest) <$> shared level (identity item) join old item
      else (old :: ·) <$> identifiedItem level identity join rest item := rfl

/-- An item whose identity no item of the list has comes to the end. -/
theorem identifiedItem_of_fresh :
    ∀ {base : List α} {item : α}, (∀ old ∈ base, ¬ SameIdentity identity old item) →
      identifiedItem level identity join base item = .ok (base ++ [item])
  | [], _, _ => rfl
  | old :: rest, item, h => by
    obtain ⟨hold, hrest⟩ := List.forall_mem_cons.1 h
    rw [identifiedItem_cons, if_neg hold, identifiedItem_of_fresh hrest]
    rfl

/-- **What one step does to the list**: the item comes to the end, or it is merged into the first
item with its identity. -/
theorem identifiedItem_cases :
    ∀ {base next : List α} {item : α}, identifiedItem level identity join base item = .ok next →
      ((∀ old ∈ base, ¬ SameIdentity identity old item) ∧ next = base ++ [item]) ∨
      ∃ l old m new, base = l ++ old :: m ∧ (∀ x ∈ l, ¬ SameIdentity identity x item) ∧
        SameIdentity identity old item ∧ level ≠ .reject ∧ join old item = .ok new ∧
        next = l ++ new :: m
  | [], _, _, h => by cases h; exact Or.inl ⟨by simp, rfl⟩
  | old :: rest, _, item, h => by
    rw [identifiedItem_cons] at h
    by_cases hsame : SameIdentity identity old item
    · rw [if_pos hsame] at h
      obtain ⟨new, hnew, rfl⟩ := map_eq_ok_iff.1 h
      obtain ⟨hlevel, hnew⟩ := shared_eq_ok_iff.1 hnew
      exact Or.inr ⟨[], old, rest, new, rfl, by simp, hsame, hlevel, hnew, rfl⟩
    · rw [if_neg hsame] at h
      obtain ⟨tail, htail, rfl⟩ := map_eq_ok_iff.1 h
      rcases identifiedItem_cases htail with ⟨hnone, rfl⟩ | ⟨l, x, m, new, rfl, hl, hrest⟩
      · exact Or.inl ⟨by simpa [hsame] using hnone, rfl⟩
      · obtain ⟨hx, hlevel, hnew, rfl⟩ := hrest
        exact Or.inr ⟨old :: l, x, m, new, rfl, by simpa [hsame] using hl, hx, hlevel, hnew, rfl⟩

theorem identifiedItem_total (hlevel : level ≠ .reject)
    (hjoin : ∀ old new, ∃ m, join old new = .ok m) :
    ∀ (base : List α) (item : α), ∃ next, identifiedItem level identity join base item = .ok next
  | [], item => ⟨[item], rfl⟩
  | old :: rest, item => by
    rw [identifiedItem_cons]
    by_cases hsame : SameIdentity identity old item
    · obtain ⟨new, hnew⟩ := hjoin old item
      rw [if_pos hsame]
      exact ⟨new :: rest, map_eq_ok_iff.2 ⟨new, shared_eq_ok_iff.2 ⟨hlevel, hnew⟩, rfl⟩⟩
    · obtain ⟨tail, htail⟩ := identifiedItem_total hlevel hjoin rest item
      rw [if_neg hsame]
      exact ⟨old :: tail, map_eq_ok_iff.2 ⟨tail, htail, rfl⟩⟩

/-- One step leaves identities distinct, whatever the item: at the end it stands behind no item with
its identity, and an item that it is merged into keeps its own. -/
theorem IdentitiesDistinct.identifiedItem
    (hname : ∀ old new m, join old new = .ok m → identity m = identity old) {base next : List α}
    {item : α} (hb : IdentitiesDistinct identity base)
    (h : Merge.identifiedItem level identity join base item = .ok next) :
    IdentitiesDistinct identity next := by
  rcases identifiedItem_cases h with ⟨hnone, rfl⟩ | ⟨l, old, m, new, rfl, -, -, -, hnew, rfl⟩
  · refine List.pairwise_append.2 ⟨hb, by simp, fun a ha b hmem heq => ?_⟩
    cases List.mem_singleton.1 hmem
    by_contra hne
    exact hnone a ha ⟨heq ▸ hne, heq⟩
  · rw [identitiesDistinct_iff] at hb ⊢
    simpa only [List.map_append, List.map_cons, hname old item new hnew] using hb

/-- **A merge leaves identities distinct** where those of its base are. -/
theorem IdentitiesDistinct.identified
    (hname : ∀ old new m, join old new = .ok m → identity m = identity old)
    {base addition result : List α} (hb : IdentitiesDistinct identity base)
    (h : Merge.identified level identity join base addition = .ok result) :
    IdentitiesDistinct identity result :=
  foldlM_keeps (fun _ _ _ _ hs => hs.identifiedItem hname) hb h

/-- **Items that meet none of a list, nor each other, follow it** as they are. -/
theorem identified_of_fresh :
    ∀ {addition base : List α}, IdentitiesDistinct identity addition →
      (∀ item ∈ addition, ∀ old ∈ base, ¬ SameIdentity identity old item) →
      identified level identity join base addition = .ok (base ++ addition)
  | [], base, _, _ => by rw [List.append_nil]; rfl
  | item :: rest, base, ha, hfresh => by
    obtain ⟨hhead, htail⟩ := List.pairwise_cons.1 ha
    obtain ⟨hitem, hlater⟩ := List.forall_mem_cons.1 hfresh
    have hrest : ∀ x ∈ rest, ∀ old ∈ base ++ [item], ¬ SameIdentity identity old x := by
      intro x hx old hold
      rcases List.mem_append.1 hold with hold | hold
      · exact hlater x hx old hold
      · cases List.mem_singleton.1 hold
        rintro ⟨hne, heq⟩
        exact hne (heq.symm.trans (hhead x hx heq))
    refine foldlM_cons_eq_ok_iff.2 ⟨base ++ [item], identifiedItem_of_fresh hitem, ?_⟩
    rw [← identified, identified_of_fresh htail hrest, List.append_assoc]
    rfl

/-- An item that has come to the end of the list meets no item whose identity differs. -/
theorem newItems_append_cons {base rest : List α} {item : α}
    (hnone : ∀ old ∈ base, ¬ SameIdentity identity old item)
    (hlater : ∀ x ∈ rest, ¬ SameIdentity identity item x) :
    newItems identity base (item :: rest) = item :: newItems identity (base ++ [item]) rest := by
  rw [newItems, List.filter_cons_of_pos (by simpa using hnone), newItems]
  congr 1
  refine List.filter_congr fun x hx => ?_
  simp [or_imp, forall_and, hlater x hx]

/-- An item that has merged into one of the list is no new item, and the list has the identities
that it had. -/
theorem newItems_middle {l m rest : List α} {old new item : α}
    (hsame : SameIdentity identity old item) (hnew : identity new = identity old) :
    newItems identity (l ++ old :: m) (item :: rest) = newItems identity (l ++ new :: m) rest := by
  rw [newItems, List.filter_cons_of_neg (by simpa using ⟨old, by simp, hsame⟩), newItems]
  refine List.filter_congr fun x _ => ?_
  simp only [SameIdentity, List.forall_mem_append, List.forall_mem_cons, hnew]

/-- Items that do not go by the identity of the first item of the addition are joined with the
others. -/
theorem forall₂_itemJoined_cons {R : α → α → α → Prop} {item : α} {rest l v : List α}
    (hl : ∀ x ∈ l, ¬ SameIdentity identity x item)
    (h : List.Forall₂ (ItemJoined identity R rest) l v) :
    List.Forall₂ (ItemJoined identity R (item :: rest)) l v := by
  induction h with
  | nil => exact .nil
  | cons hhead _ ih =>
    refine .cons ((itemJoined_cons_of_not_same (hl _ (by simp))).2 hhead) (ih fun x hx => ?_)
    exact hl x (by simp [hx])

/-- **A merge of distinct items is a join by identity.** The induction is on the addition; that its
identities are distinct keeps the later items away from what the first one has become. -/
theorem byIdentity_of_identified
    (hname : ∀ old new m, join old new = .ok m → identity m = identity old) :
    ∀ {addition base result : List α}, IdentitiesDistinct identity base →
      IdentitiesDistinct identity addition →
      identified level identity join base addition = .ok result →
      ByIdentity identity (fun old new m => level ≠ .reject ∧ join old new = .ok m) base addition
        result
  | [], base, _, _, _, h => by
    cases foldlM_nil_eq_ok_iff.1 h
    refine ⟨base, ?_, by simp [newItems]⟩
    exact List.forall₂_same.2 fun x _ => (itemJoined_of_none (by simp)).2 rfl
  | item :: rest, base, result, hb, ha, h => by
    obtain ⟨next, hnext, hrest⟩ := foldlM_cons_eq_ok_iff.1 h
    obtain ⟨hhead, htail⟩ := List.pairwise_cons.1 ha
    have hlater : ∀ old, identity old = identity item →
        ∀ x ∈ rest, ¬ SameIdentity identity old x := by
      rintro old hold x hx ⟨hne, heq⟩
      have hempty := hhead x hx (hold.symm.trans heq)
      exact hne (heq.symm.trans (hold.trans hempty))
    have hdistinct : IdentitiesDistinct identity next := hb.identifiedItem hname hnext
    rcases identifiedItem_cases hnext with
      ⟨hnone, rfl⟩ | ⟨l, old, m, new, rfl, hl, hsame, hlevel, hnew, rfl⟩
    · -- the item is new, and no later item merges with it
      obtain ⟨kept, hkept, rfl⟩ := byIdentity_of_identified hname hdistinct htail hrest
      obtain ⟨front, back, hfront, hback, rfl⟩ := forall₂_append_split hkept
      have hlast : back = [item] := by
        cases hback with
        | cons hitem hnil =>
          cases hnil
          rw [(itemJoined_of_none (hlater item rfl)).1 hitem]
      refine ⟨front, forall₂_itemJoined_cons hnone hfront, ?_⟩
      rw [newItems_append_cons hnone (hlater item rfl), hlast, List.append_assoc]
      rfl
    · -- the item has merged into `old`, and no later item goes by that identity
      have hident : identity new = identity old := hname old item new hnew
      have hm : ∀ x ∈ m, ¬ SameIdentity identity x item := by
        rintro x hx ⟨hne, heq⟩
        have hold := (List.pairwise_cons.1 (List.pairwise_append.1 hb).2.1).1 x hx
        exact hne (hsame.2.symm.trans (hold (hsame.2.trans heq.symm)))
      obtain ⟨kept, hkept, rfl⟩ := byIdentity_of_identified hname hdistinct htail hrest
      obtain ⟨front, back, hfront, hback, rfl⟩ := forall₂_append_split hkept
      cases hback with
      | @cons _ merged _ tail hmerged htail' =>
        have heq := (itemJoined_of_none (hlater new (hident.trans hsame.2))).1 hmerged
        subst heq
        refine ⟨front ++ merged :: tail, List.rel_append (forall₂_itemJoined_cons hl hfront) ?_, ?_⟩
        · refine .cons ((itemJoined_cons_of_same hsame).2 ⟨hlevel, hnew⟩) ?_
          exact forall₂_itemJoined_cons hm htail'
        · rw [newItems_middle hsame hident]

/-- **The specification determines a merge that cannot fail.** -/
theorem identified_eq_ok_iff {R : α → α → α → Prop} (hlevel : level ≠ .reject)
    (hjoin : ∀ old new, ∃ m, join old new = .ok m)
    (hR : ∀ old new m, join old new = .ok m ↔ R old new m)
    (hname : ∀ old new m, R old new m → identity m = identity old)
    {base addition result : List α} (hb : IdentitiesDistinct identity base)
    (ha : IdentitiesDistinct identity addition) :
    identified level identity join base addition = .ok result ↔
      ByIdentity identity R base addition result := by
  have hrel : (fun old new m => level ≠ .reject ∧ join old new = .ok m) = R := by
    funext old new m
    rw [and_iff_right hlevel, hR]
  have hby : ∀ {r}, identified level identity join base addition = .ok r →
      ByIdentity identity R base addition r := by
    intro r h
    have hname' : ∀ old new m, join old new = .ok m → identity m = identity old :=
      fun old new m hm => hname old new m ((hR old new m).1 hm)
    exact hrel ▸ byIdentity_of_identified hname' hb ha h
  refine ⟨hby, fun h => ?_⟩
  obtain ⟨other, hother⟩ := foldlM_total (identifiedItem_total hlevel hjoin) addition base
  have heq : other = result := by
    refine (hby hother).unique (fun old new m m' hm hm' => ?_) h
    exact Except.ok.inj (((hR old new m).2 hm).symm.trans ((hR old new m').2 hm'))
  exact heq ▸ hother

end Merge

end IdlDecls
