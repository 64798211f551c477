import IdlDecls.Proofs.Merge.Disjoint
import IdlDecls.Proofs.Merge.Included
import IdlDecls.Proofs.Merge.Lists
import IdlDecls.Proofs.Merge.Sites

/-!
# Conflicts point at clashes

A merge that fails reports a path, and that path leads in both graphs to sites that clash
(`Graph.merge_clashes`). `ReportsClash` says so of a merge of two values from their trees. It holds of
each kind of field, and a record reports what its fields report (`ReportsClash.step`), one after the
other in the order in which the record is merged.
-/

namespace IdlDecls

open Merge Merging

variable {α β : Type}

/-! ## Below branches -/

/-- The path leads along one of the branches to a site. -/
def LeadsFrom (branches : List (String × Tree)) : List String → Site → Prop
  | [], _ => False
  | segment :: path, site => ∃ tree, (segment, tree) ∈ branches ∧ tree.Leads path site

theorem LeadsFrom.mono {branches branches' : List (String × Tree)} {path : List String}
    {site : Site} (h : LeadsFrom branches path site) (hsub : branches ⊆ branches') :
    LeadsFrom branches' path site := by
  cases path with
  | nil => exact h
  | cons segment path =>
    obtain ⟨tree, hmem, hleads⟩ := h
    exact ⟨tree, hsub hmem, hleads⟩

theorem LeadsFrom.leads {here site : Site} {branches : List (String × Tree)} {path : List String}
    (h : LeadsFrom branches path site) : (Tree.node here branches).Leads path site := by
  cases path with
  | nil => exact h.elim
  | cons segment path => exact h

/-- The objects below some branches are maps. -/
def HaveMaps (branches : List (String × Tree)) : Prop :=
  ∀ path site, LeadsFrom branches path site → site.content.isMap = true

theorem HaveMaps.mono {branches branches' : List (String × Tree)} (h : HaveMaps branches')
    (hsub : branches ⊆ branches') : HaveMaps branches :=
  fun path site hleads => h path site (hleads.mono hsub)

theorem HaveMaps.below {branches below : List (String × Tree)} {segment : String} {here : Site}
    (h : HaveMaps branches) (hmem : (segment, .node here below) ∈ branches) : HaveMaps below :=
  fun path site hleads => h (segment :: path) site ⟨_, hmem, hleads.leads⟩

/-! ## Reports -/

/-- If a merge fails, its path leads on both sides to sites that clash. -/
def ReportsClash (policy : MergePolicy) (old new : List (String × Tree)) (m : Merging α) : Prop :=
  HaveMaps new → ∀ c, m = .error c → ∃ o n, LeadsFrom old c.path o ∧ LeadsFrom new c.path n ∧
    o.Clash policy n

namespace ReportsClash

variable {policy : MergePolicy} {old new : List (String × Tree)} {m : Merging α}

theorem ok (value : α) : ReportsClash policy old new (.ok value : Merging α) := nofun

theorem pure (value : α) : ReportsClash policy old new (Pure.pure value : Merging α) := nofun

theorem map (h : ReportsClash policy old new m) (f : α → β) :
    ReportsClash policy old new (f <$> m) := by
  intro hnew c hc
  cases m with
  | ok value => cases hc
  | error c' =>
    cases hc
    exact h hnew c rfl

theorem mono {old' new' : List (String × Tree)} (h : ReportsClash policy old new m)
    (hold : old ⊆ old') (hnew : new ⊆ new') : ReportsClash policy old' new' m := by
  intro hmaps c hc
  obtain ⟨o, n, ho, hn, hclash⟩ := h (hmaps.mono hnew) c hc
  exact ⟨o, n, ho.mono hold, hn.mono hnew, hclash⟩

/-- **A record reports what its fields report.** -/
theorem step {olds news : List (List (String × Tree))} {next : α → Merging β}
    (h : ReportsClash policy old new m)
    (hnext : ∀ value, ReportsClash policy olds.flatten news.flatten (next value)) :
    ReportsClash policy (old :: olds).flatten (new :: news).flatten (m >>= next) := by
  rw [List.flatten_cons, List.flatten_cons]
  cases m with
  | ok value => exact (hnext value).mono (List.subset_append_right ..) (List.subset_append_right ..)
  | error c' =>
    intro hmaps c hc
    have hc' : c' = c := Except.error.inj hc
    exact h.mono (List.subset_append_left ..) (List.subset_append_left ..) hmaps c
      (congrArg Except.error hc')

/-- What is reported below a segment is reported behind it. -/
theorem within {segment : String} {here here' : Site} (h : ReportsClash policy old new m) :
    ReportsClash policy [(segment, .node here old)] [(segment, .node here' new)]
      (within segment m) := by
  intro hmaps c hc
  cases m with
  | ok value => cases hc
  | error c' =>
    cases hc
    obtain ⟨o, n, ho, hn, hclash⟩ := h (hmaps.below (List.mem_singleton_self _)) c' rfl
    exact ⟨o, n, ⟨_, List.mem_singleton_self _, ho.leads⟩, ⟨_, List.mem_singleton_self _, hn.leads⟩,
      hclash⟩

end ReportsClash

/-! ## Single values and sets -/

section Leaves

variable {policy : MergePolicy} {level : Level} {key : String} {content : α → Content}
  {base addition : Option α}

/-- A field without anything below it reports a clash where it fails. -/
theorem reports_leaf {join : α → α → Merging α}
    (hjoin : ∀ old new c, join old new = .error c → c.path = [] ∧
      policy.active level ≠ .override ∧ (content old).Changes (content new)) :
    ReportsClash policy (leaf level key content base) (leaf level key content addition)
      (within key (optional join base addition)) := by
  cases base with
  | none =>
    rw [optional_none_left]
    exact .ok addition
  | some old =>
    cases addition with
    | none => exact .ok (some old)
    | some new =>
      intro _ c hc
      simp only [Merge.optional] at hc
      cases hm : join old new with
      | ok merged =>
        rw [hm] at hc
        cases hc
      | error c' =>
        rw [hm] at hc
        cases hc
        obtain ⟨hpath, hpolicy, hchanges⟩ := hjoin old new c' hm
        refine ⟨⟨level, content old⟩, ⟨level, content new⟩, ?_, ?_, rfl, Or.inr ⟨hpolicy, hchanges⟩⟩
        all_goals
          rw [hpath]
          exact ⟨_, List.mem_singleton_self _, rfl⟩

theorem settleBy_eq_error {β : Type} [DecidableEq β] {look : α → β} {active : Policy} {old new : α}
    {c : Conflict} (h : settleBy look active old new = .error c) :
    c.path = [] ∧ active ≠ .override ∧ look new ≠ look old := by
  unfold settleBy at h
  split at h
  · cases h
  · rename_i hlook
    cases active with
    | override => cases h
    | reject | extend =>
      cases h
      exact ⟨rfl, nofun, hlook⟩

/-- A single value reports a value that differs. -/
theorem reports_scalar [DecidableEq α]
    (hcontent : ∀ old new, new ≠ old → (content old).Changes (content new)) :
    ReportsClash policy (leaf level key content base) (leaf level key content addition)
      (within key (scalar (policy.active level) base addition)) :=
  reports_leaf fun old new c h => by
    obtain ⟨hpath, hpolicy, hne⟩ := settleBy_eq_error h
    exact ⟨hpath, hpolicy, hcontent old new hne⟩

theorem reports_text {base addition : Option String} :
    ReportsClash policy (leaf level key .text base) (leaf level key .text addition)
      (within key (scalar (policy.active level) base addition)) :=
  reports_scalar fun _ _ h => h

theorem reports_flag {base addition : Option Bool} :
    ReportsClash policy (leaf level key .flag base) (leaf level key .flag addition)
      (within key (scalar (policy.active level) base addition)) :=
  reports_scalar fun _ _ h => h

theorem reports_literal {base addition : Option Json} :
    ReportsClash policy (leaf level key .literal base) (leaf level key .literal addition)
      (within key (literal (policy.active level) base addition)) :=
  reports_leaf fun _ _ _ h => settleBy_eq_error h

/-- A set reports that it would grow. -/
theorem reports_grown [DecidableEq α] {union : α → α → α}
    (hunion : ∀ old new, union old new ≠ old → (content old).Changes (content new)) :
    ReportsClash policy (leaf level key content base) (leaf level key content addition)
      (within key (grown (policy.active level) union base addition)) :=
  reports_leaf fun old new c h => by
    obtain ⟨hpath, hpolicy, hne⟩ := settleBy_eq_error h
    exact ⟨hpath, hpolicy, hunion old new hne⟩

theorem reports_deprecation {base addition : Option Bool} :
    ReportsClash policy (leaf level key .mark base) (leaf level key .mark addition)
      (within key (deprecation (policy.active level) base addition)) :=
  reports_grown fun old new h => by
    cases old <;> cases new <;> simp_all [Content.Changes]

theorem reports_names {base addition : Option (List String)} :
    ReportsClash policy (leaf level key .names base) (leaf level key .names addition)
      (within key (grown (policy.active level) unionNames base addition)) :=
  reports_grown fun old new h => by
    by_contra hchanges
    rw [unionNames_eq] at h
    exact h (joinedNames_eq_self_iff.2 (by simpa [Content.Changes] using hchanges))

/-- Contexts that are all there already are not added. -/
theorem Exposure.extend_eq_self {e other : Exposure}
    (h : ∀ context ∈ other.contexts, context ∈ e.contexts) : e.extend other = e := by
  refine ext_contexts ?_
  rw [contexts_extend, joinedNames_eq_self_iff]
  exact h

theorem reports_exposure {base addition : Option Exposure} :
    ReportsClash policy (leaf level key .exposure (Exposure.nonempty? base))
      (leaf level key .exposure (Exposure.nonempty? addition))
      (within key (exposure (policy.active level) base addition)) := by
  rw [exposure]
  split
  · exact .ok base
  · rename_i value hvalue
    rw [hvalue]
    exact reports_grown fun old new h => by
      by_contra hchanges
      exact h (Exposure.extend_eq_self (by simpa [Content.Changes] using hchanges))

end Leaves

/-! ## Records and entries -/

section Records

variable {policy : MergePolicy} {level : Level} {branches : α → List (String × Tree)}
  {join : α → α → Merging α}

theorem reports_inner {key : String}
    (h : ∀ old new, ReportsClash policy (branches old) (branches new) (join old new))
    {base addition : Option α} :
    ReportsClash policy (inner level key branches base) (inner level key branches addition)
      (within key (optional join base addition)) := by
  cases base with
  | none =>
    rw [optional_none_left]
    exact .ok addition
  | some old =>
    cases addition with
    | none => exact .ok (some old)
    | some new => exact ((h old new).map some).within

/-- An entry on both sides is a clash where it is rejected; else what is in it may clash. -/
theorem reports_shared {name : String} {old new : α}
    (h : ReportsClash policy (branches old) (branches new) (join old new)) :
    ReportsClash policy [(name, .node ⟨level, .entry⟩ (branches old))]
      [(name, .node ⟨level, .entry⟩ (branches new))]
      (shared (policy.active level) name join old new) := by
  rw [shared]
  split
  · rename_i hreject
    intro _ c hc
    cases hc
    exact ⟨⟨level, .entry⟩, ⟨level, .entry⟩, ⟨_, List.mem_singleton_self _, rfl⟩,
      ⟨_, List.mem_singleton_self _, rfl⟩, rfl, Or.inl ⟨hreject, rfl, rfl⟩⟩
  · exact h.within

/-- A join that fails does so at a key that both sides have. The induction is on the entries of the
addition; since their keys ascend, what one brings to the base does not meet the next. -/
theorem exists_of_joinM_eq_error {ε : Type} {join : String → α → α → Except ε α}
    {base addition : Keyed α} {e : ε} (h : Keyed.joinM join base addition = .error e) :
    ∃ key old new, base.get? key = some old ∧ addition.get? key = some new ∧
      join key old new = .error e := by
  obtain ⟨l, hl⟩ := addition
  simp only [Keyed.joinM] at h
  induction l generalizing base with
  | nil => cases h
  | cons entry rest ih =>
    obtain ⟨k, v⟩ := entry
    obtain ⟨hhead, htail⟩ := List.pairwise_cons.1 hl
    have hlater : ∀ value, Keyed.joinM join (base.insert k value) ⟨rest, htail⟩ = .error e →
        ∃ key old new, base.get? key = some old ∧
          (Keyed.mk ((k, v) :: rest) hl).get? key = some new ∧ join key old new = .error e := by
      intro value hrest
      obtain ⟨key, old, new, hold, hnew, hjoin⟩ := ih htail hrest
      have hne : k ≠ key := by
        rintro rfl
        exact Option.some_ne_none new (hnew.symm.trans (Entries.get?_eq_none_of_lt hhead))
      rw [Keyed.get?_insert, if_neg hne] at hold
      refine ⟨key, old, new, hold, ?_, hjoin⟩
      simpa [Keyed.get?, Entries.get?, hne] using hnew
    rw [List.foldlM_cons] at h
    cases hold : base.get? k with
    | none =>
      simp only [hold] at h
      exact hlater v h
    | some old =>
      simp only [hold] at h
      cases hm : join k old v with
      | error e' =>
        rw [hm] at h
        cases h
        exact ⟨k, old, v, hold, by simp [Keyed.get?, Entries.get?], hm⟩
      | ok merged =>
        rw [hm] at h
        exact hlater merged h

theorem reports_keyed
    (h : ∀ old new, ReportsClash policy (branches old) (branches new) (join old new))
    (base addition : Keyed α) :
    ReportsClash policy (entryTrees level branches base.entries)
      (entryTrees level branches addition.entries)
      (keyed (policy.active level) join base addition) := by
  intro hmaps c hc
  obtain ⟨key, old, new, hold, hnew, hshared⟩ := exists_of_joinM_eq_error hc
  have hmem : ∀ {m : Keyed α} {value : α}, m.get? key = some value →
      [(key, Tree.node ⟨level, .entry⟩ (branches value))] ⊆ entryTrees level branches m.entries :=
    fun hget => List.cons_subset.2
      ⟨List.mem_map.2 ⟨_, Keyed.get?_eq_some_iff_mem.1 hget, rfl⟩, List.nil_subset _⟩
  exact (reports_shared (h old new)).mono (hmem hold) (hmem hnew) hmaps c hshared

theorem reports_collection {field entries : String}
    (h : ∀ old new, ReportsClash policy (branches old) (branches new) (join old new))
    {base addition : Option (Keyed α)} :
    ReportsClash policy (collectionTrees level field entries branches base)
      (collectionTrees level field entries branches addition)
      (collection (policy.active level) field entries join base addition) :=
  reports_inner fun old new => (reports_keyed h old new).within

end Records

/-! ## Items with identities -/

section Items

variable {identity : α → String} {join : α → α → Merging α} {level : Policy}

/-- A step that fails does so at an item with the identity of the one that comes. -/
theorem exists_of_identifiedItem_eq_error {item : α} {c : Conflict} : ∀ {base : List α},
    identifiedItem level identity join base item = .error c →
      ∃ old ∈ base, SameIdentity identity old item ∧
        shared level (identity item) join old item = .error c
  | [], h => by cases h
  | old :: rest, h => by
    rw [identifiedItem_cons] at h
    by_cases hsame : SameIdentity identity old item
    · rw [if_pos hsame] at h
      cases hm : shared level (identity item) join old item with
      | ok merged =>
        rw [hm] at h
        cases h
      | error c' =>
        rw [hm] at h
        cases h
        exact ⟨old, List.mem_cons_self .., hsame, hm⟩
    · rw [if_neg hsame] at h
      cases hm : identifiedItem level identity join rest item with
      | ok next =>
        rw [hm] at h
        cases h
      | error c' =>
        rw [hm] at h
        cases h
        obtain ⟨old, hold, hfound⟩ := exists_of_identifiedItem_eq_error hm
        exact ⟨old, List.mem_cons_of_mem _ hold, hfound⟩

/-- A merge of lists that fails does so at an item of the base. The induction is on the addition;
the items that have come to the list share their identity with none that is still to come. -/
theorem exists_of_identified_eq_error
    (hname : ∀ old new m, join old new = .ok m → identity m = identity old) {base : List α}
    {c : Conflict} : ∀ {addition current : List α}, IdentitiesDistinct identity addition →
      (∀ item ∈ addition, ∀ x ∈ current, SameIdentity identity x item → x ∈ base) →
      identified level identity join current addition = .error c →
        ∃ old ∈ base, ∃ item ∈ addition, SameIdentity identity old item ∧
          shared level (identity item) join old item = .error c
  | [], _, _, _, h => by cases h
  | item :: rest, current, hdistinct, hbase, h => by
    obtain ⟨hhead, htail⟩ := List.pairwise_cons.1 hdistinct
    obtain ⟨hitem, hrest⟩ := List.forall_mem_cons.1 hbase
    rw [identified, List.foldlM_cons] at h
    cases hstep : identifiedItem level identity join current item with
    | error c' =>
      rw [hstep] at h
      cases h
      obtain ⟨old, hold, hsame, hshared⟩ := exists_of_identifiedItem_eq_error hstep
      exact ⟨old, hitem old hold hsame, item, List.mem_cons_self .., hsame, hshared⟩
    | ok next =>
      rw [hstep] at h
      -- what this step has changed goes by the identity of `item`
      have hnext : ∀ later ∈ rest, ∀ x ∈ next, SameIdentity identity x later → x ∈ base := by
        intro later hlater x hx hsame
        have hother : identity x ≠ identity item := fun heq =>
          hsame.1 (by rw [← hsame.2, heq]; exact hhead later hlater (heq.symm.trans hsame.2))
        rcases identifiedItem_cases hstep with
          ⟨-, rfl⟩ | ⟨l, old, m, new, rfl, -, hold, -, hnew, rfl⟩
        · rcases List.mem_append.1 hx with hx | hx
          · exact hrest later hlater x hx hsame
          · exact absurd (congrArg identity (List.mem_singleton.1 hx)) hother
        · have hx' : x ∈ l ++ old :: m := by
            simp only [List.mem_append, List.mem_cons] at hx ⊢
            rcases hx with hx | rfl | hx
            · exact Or.inl hx
            · exact absurd ((hname old item _ hnew).trans hold.2) hother
            · exact Or.inr (Or.inr hx)
          exact hrest later hlater x hx' hsame
      obtain ⟨old, hold, found, hfound, hshared⟩ :=
        exists_of_identified_eq_error hname htail hnext h
      exact ⟨old, hold, found, List.mem_cons_of_mem _ hfound, hshared⟩

theorem reports_identified {policy : MergePolicy} {level : Level}
    {branches : α → List (String × Tree)}
    (hname : ∀ old new m, join old new = .ok m → identity m = identity old)
    (h : ∀ old new, ReportsClash policy (branches old) (branches new) (join old new))
    {base addition : List α} (hdistinct : IdentitiesDistinct identity addition) :
    ReportsClash policy (itemTrees level identity branches base)
      (itemTrees level identity branches addition)
      (identified (policy.active level) identity join base addition) := by
  intro hmaps c hc
  obtain ⟨old, hold, new, hnew, ⟨hne, hsame⟩, hshared⟩ :=
    exists_of_identified_eq_error hname hdistinct (fun _ _ x hx _ => hx) hc
  have hmem : ∀ {l : List α} {item : α}, item ∈ l → identity item = identity new →
      [(identity new, Tree.node ⟨level, .entry⟩ (branches item))] ⊆
        itemTrees level identity branches l := by
    intro l item hitem heq
    refine List.cons_subset.2
      ⟨List.mem_map.2 ⟨(identity item, item), ?_, by rw [heq]⟩, List.nil_subset _⟩
    exact List.mem_map.2 ⟨item, List.mem_filter.2 ⟨hitem, by simpa [heq] using hne⟩, rfl⟩
  exact (reports_shared (h old new)).mono (hmem hold hsame) (hmem hnew rfl) hmaps c hshared

end Items

/-! ## JSON -/

section Json

variable {policy : MergePolicy} {level : Level}

theorem Json.mem_fieldTrees {key : String} {value : Json} : ∀ {fields : List (String × Json)},
    (key, value) ∈ fields → (key, value.tree level) ∈ Json.fieldTrees level fields
  | (k, v) :: rest, h => by
    rw [Json.fieldTrees]
    rcases List.mem_cons.1 h with h | h
    · cases h
      exact List.mem_cons_self ..
    · exact List.mem_cons_of_mem _ (mem_fieldTrees h)

/-- Values that are single values to a merge clash where they differ. -/
theorem reports_settleJson {key : String} {old new : Json}
    (hchanges : new.unsignedZeros ≠ old.unsignedZeros → (Content.json old).Changes (.json new)) :
    ReportsClash policy [(key, old.tree level)] [(key, new.tree level)]
      (within key (settleJson (policy.active level) old new)) := by
  intro _ c hc
  cases hm : settleJson (policy.active level) old new with
  | ok merged =>
    rw [hm] at hc
    cases hc
  | error c' =>
    rw [hm] at hc
    cases hc
    obtain ⟨hpath, hpolicy, hne⟩ := settleBy_eq_error hm
    have hleads : ∀ j : Json, (j.tree level).Leads [] ⟨level, .json j⟩ := fun j => by
      cases j <;> rfl
    refine ⟨⟨level, .json old⟩, ⟨level, .json new⟩, ?_, ?_, rfl, Or.inr ⟨hpolicy, hchanges hne⟩⟩
    all_goals
      rw [hpath]
      exact ⟨_, List.mem_singleton_self _, hleads _⟩

mutual

theorem reports_json (key : String) : ∀ old new : Json,
    ReportsClash policy [(key, old.tree level)] [(key, new.tree level)]
      (within key (json (policy.active level) old new))
  | .obj base, .obj addition => by
    rw [json, Json.tree, Json.tree]
    intro hmaps
    have hdistinct : (addition.map (·.1)).Nodup := of_decide_eq_true
      (hmaps [key] ⟨level, .json (.obj addition)⟩ ⟨_, List.mem_singleton_self _, rfl⟩)
    exact ((reports_jsonFields base addition hdistinct fun _ _ => rfl).map _).within hmaps
  | .arr base, .arr addition => by
    rw [json]
    exact .ok _
  | .null, new | .bool _, new | .num _, new | .str _, new => by
    cases new <;> exact reports_settleJson id
  | .arr _, .null | .arr _, .bool _ | .arr _, .num _ | .arr _, .str _ | .arr _, .obj _
  | .obj _, .null | .obj _, .bool _ | .obj _, .num _ | .obj _, .str _ | .obj _, .arr _ =>
    reports_settleJson id

/-- Under the keys that are still to come, the object is as it was. -/
theorem reports_jsonFields (base : List (String × Json)) {current : List (String × Json)} :
    ∀ addition : List (String × Json), (addition.map (·.1)).Nodup →
      (∀ key ∈ addition.map (·.1), Entries.get? current key = Entries.get? base key) →
      ReportsClash policy (Json.fieldTrees level base) (Json.fieldTrees level addition)
        (jsonFields (policy.active level) current addition)
  | [], _, _ => by
    rw [jsonFields]
    exact .ok current
  | (key, value) :: rest, hdistinct, hcurrent => by
    obtain ⟨hkey, hrest⟩ := List.nodup_cons.1 hdistinct
    obtain ⟨hold, hlater⟩ := List.forall_mem_cons.1 hcurrent
    have hnext : ∀ merged, ReportsClash policy (Json.fieldTrees level base)
        (Json.fieldTrees level ((key, value) :: rest))
        (jsonFields (policy.active level) (Entries.insert key merged current) rest) := by
      intro merged
      refine (reports_jsonFields base rest hrest fun later hmem => ?_).mono (List.Subset.refl _)
        (by rw [Json.fieldTrees.eq_2]; exact List.subset_cons_self ..)
      have hne : key ≠ later := fun heq => hkey (heq ▸ hmem)
      rw [Entries.get?_insert, if_neg hne, hlater later hmem]
    rw [jsonFields]
    split
    · exact hnext value
    · rename_i old hget
      split
      · exact hnext _
      · rename_i c hm
        have hmem : (key, old) ∈ base := Entries.mem_of_get? (hold.symm.trans hget)
        have hmem' : (key, value) ∈ (key, value) :: rest := List.mem_cons_self ..
        intro hmaps c' hc'
        cases hc'
        exact (reports_json key old value).mono
          (List.cons_subset.2 ⟨Json.mem_fieldTrees hmem, List.nil_subset _⟩)
          (List.cons_subset.2 ⟨Json.mem_fieldTrees hmem', List.nil_subset _⟩) hmaps c hm

end

theorem reports_extras {base addition : Extra} :
    ReportsClash policy (base.trees level) (addition.trees level)
      (extras (policy.active level) base addition) := by
  intro hmaps c hc
  obtain ⟨key, old, new, hold, hnew, hm⟩ := exists_of_joinM_eq_error hc
  have hmem : ∀ {extra : Extra} {value : Json}, extra.get? key = some value →
      [(key, value.tree level)] ⊆ extra.trees level := fun hget => List.cons_subset.2
    ⟨Json.mem_fieldTrees (Keyed.get?_eq_some_iff_mem.1 hget), List.nil_subset _⟩
  exact (reports_json key old new).mono (hmem hold) (hmem hnew) hmaps c hm

end Json

/-! ## Members -/

section Members

variable {policy : MergePolicy}

theorem TypeRef.reports_merge (level : Level) (base addition : TypeRef) :
    ReportsClash policy (base.trees level) (addition.trees level)
      (base.merge (policy.active level) addition) :=
  .step (reports_scalar fun _ _ h => h) fun _ =>
    .step (reports_scalar fun _ _ h => h) fun _ => .step reports_flag fun _ => .pure _

theorem Constant.reports_merge (base addition : Constant) :
    ReportsClash policy base.trees addition.trees (base.merge policy.members addition) :=
  .step (TypeRef.reports_merge .members _ _) fun _ => .step reports_literal fun _ =>
    .step reports_text fun _ => .step reports_exposure fun _ => .step reports_extras fun _ =>
    .pure _

theorem Method.reports_merge (base addition : Method) :
    ReportsClash policy base.trees addition.trees (base.merge policy.members addition) :=
  .step reports_flag fun _ => .step reports_text fun _ => .step reports_exposure fun _ =>
    .step reports_deprecation fun _ => .step reports_extras fun _ => .pure _

theorem Property.reports_merge (base addition : Property) :
    ReportsClash policy base.trees addition.trees (base.merge policy.members addition) :=
  .step (TypeRef.reports_merge .members _ _) fun _ => .step reports_flag fun _ =>
    .step reports_flag fun _ => .step reports_text fun _ => .step reports_exposure fun _ =>
    .step reports_deprecation fun _ => .step reports_extras fun _ => .pure _

theorem Constructor.reports_merge (base addition : Constructor) :
    ReportsClash policy base.trees addition.trees (base.merge policy.members addition) :=
  .step reports_text fun _ => .step reports_exposure fun _ => .step reports_extras fun _ =>
    .pure _

/-- A kind is a single value unless it is the empty text. -/
theorem IteratorDecl.reports_mergeKind {level : Level} {key base addition : String} :
    ReportsClash policy (leaf level key .text (if base = "" then none else some base))
      (leaf level key .text (if addition = "" then none else some addition))
      (within key (mergeKind (policy.active level) base addition)) := by
  rw [mergeKind]
  split
  · exact .ok addition
  · split
    · exact .ok base
    · intro hmaps c hc
      refine reports_text hmaps c ?_
      simp only [scalar, Merge.optional]
      cases hm : settle (policy.active level) base addition with
      | ok kind =>
        rw [hm] at hc
        cases hc
      | error c' =>
        rw [hm] at hc
        cases hc
        rfl

theorem IteratorDecl.reports_merge (base addition : IteratorDecl) :
    ReportsClash policy base.trees addition.trees (base.merge policy.members addition) :=
  .step reports_mergeKind fun _ => .step reports_flag fun _ => .step reports_extras fun _ => .pure _

theorem Member.reports_merge (base addition : Member) :
    ReportsClash policy base.trees addition.trees (base.merge policy.members addition) :=
  .step (TypeRef.reports_merge .members _ _) fun _ => .step reports_flag fun _ =>
    .step reports_literal fun _ => .step reports_text fun _ => .step reports_extras fun _ => .pure _

end Members

/-! ## Definitions -/

section Definitions

variable {policy : MergePolicy}

theorem Interface.reports_merge (base addition : Interface) :
    ReportsClash policy base.trees addition.trees (base.merge policy addition) :=
  .step reports_text fun _ => .step reports_text fun _ =>
    .step (reports_collection Constant.reports_merge) fun _ =>
    .step (reports_collection Method.reports_merge) fun _ =>
    .step (reports_collection Property.reports_merge) fun _ =>
    .step (reports_inner Constructor.reports_merge) fun _ =>
    .step (reports_inner IteratorDecl.reports_merge) fun _ => .step reports_exposure fun _ =>
    .step reports_exposure fun _ => .step reports_names fun _ => .step reports_deprecation fun _ =>
    .step reports_extras fun _ => .pure _

theorem Dictionary.reports_merge (base addition : Dictionary) :
    ReportsClash policy base.trees addition.trees (base.merge policy addition) :=
  .step reports_text fun _ => .step reports_text fun _ =>
    .step (reports_collection Member.reports_merge) fun _ => .step reports_extras fun _ => .pure _

theorem Enumeration.reports_merge (base addition : Enumeration) :
    ReportsClash policy base.trees addition.trees (base.merge policy.entries addition) :=
  .step reports_text fun _ => .step reports_extras fun _ => .pure _

theorem CallbackFunction.reports_merge (base addition : CallbackFunction) :
    ReportsClash policy base.trees addition.trees (base.merge policy.entries addition) :=
  .step reports_text fun _ => .step reports_extras fun _ => .pure _

theorem Typedef.reports_merge (base addition : Typedef) :
    ReportsClash policy base.trees addition.trees (base.merge policy.entries addition) :=
  .step (TypeRef.reports_merge .entries _ _) fun _ => .step reports_text fun _ =>
    .step reports_extras fun _ => .pure _

end Definitions

/-! ## Graphs -/

section Graphs

variable {policy : MergePolicy} {base addition : Graph}

theorem reports_typedefs {olds items : Option (List Typedef)}
    (hdistinct : IdentitiesDistinct Typedef.name (items.getD [])) :
    ReportsClash policy (inner .entries "typedefs" typedefTrees olds)
      (inner .entries "typedefs" typedefTrees items)
      (within "typedefs" (optional
        (fun old new => within "typedef" (mergeTypedefs policy.entries old new)) olds items)) := by
  have hname : ∀ old new m : Typedef, old.merge policy.entries new = .ok m → m.name = old.name :=
    fun _ _ _ h => (Typedef.merge_eq_ok_iff.1 h).name
  cases items with
  | none =>
    rw [optional_none]
    exact .ok olds
  | some items =>
    cases olds with
    | none => exact .ok (some items)
    | some olds =>
      have hitems : ReportsClash policy (itemTrees .entries Typedef.name Typedef.trees olds)
          (itemTrees .entries Typedef.name Typedef.trees items)
          (mergeTypedefs policy.entries olds items) :=
        reports_identified hname Typedef.reports_merge hdistinct
      exact (hitems.within.map some).within

/-- Where the base has no namespaces, there is nothing to clash with. -/
theorem reports_namespaces {olds items : Option (List Interface)}
    (hdistinct : IdentitiesDistinct Interface.name (items.getD [])) :
    ReportsClash policy (inner .entries "namespaces" namespaceTrees olds)
      (inner .entries "namespaces" namespaceTrees items)
      (within "namespaces" (Graph.mergeNamespaceLists policy olds items)) := by
  have hname : ∀ old new m : Interface, old.merge policy new = .ok m → m.name = old.name :=
    fun _ _ _ h => (Interface.merge_eq_ok_iff.1 h).name
  cases items with
  | none => exact .ok olds
  | some items =>
    cases olds with
    | none =>
      have hfresh : mergeNamespaces policy [] items = .ok items :=
        identified_of_fresh hdistinct (by simp)
      rw [Graph.mergeNamespaceLists, Option.getD_none, hfresh]
      exact .ok (some items)
    | some olds =>
      have hitems : ReportsClash policy (namespaceTrees olds) (namespaceTrees items)
          (mergeNamespaces policy olds items) :=
        reports_identified hname Interface.reports_merge hdistinct
      exact (hitems.map some).within

theorem Graph.reports_merge (hdistinct : addition.IdentitiesDistinct) :
    ReportsClash policy base.trees addition.trees (base.merge policy addition) := by
  have hnamespaces : ReportsClash policy _ _ (within "namespaces"
      (mergeNamespaceLists policy base.namespaces addition.namespaces)) :=
    reports_namespaces hdistinct.namespaces
  refine .step (reports_collection CallbackFunction.reports_merge) fun _ =>
    .step (reports_collection Interface.reports_merge) fun _ =>
    .step (reports_collection Dictionary.reports_merge) fun _ =>
    .step (reports_collection Enumeration.reports_merge) fun _ =>
    .step (reports_collection Interface.reports_merge) fun _ =>
    .step (reports_collection Interface.reports_merge) fun _ =>
    .step (reports_typedefs hdistinct.typedefs) fun _ => ?_
  -- the two forms that the addition gives the rest of the merge
  cases hitems : addition.namespaces with
  | none =>
    rw [hitems] at hnamespaces
    exact hnamespaces.step fun _ => .step reports_extras fun _ => .pure _
  | some items =>
    rw [hitems] at hnamespaces
    exact hnamespaces.step fun _ => .step reports_extras fun _ => .pure _

end Graphs

/-! ## Paths -/

/-- The text of a path is its segments with dots between them, unless the last one stands behind a
single empty segment: then the dot is missing. -/
theorem Conflict.pathText_eq_iff (c : Conflict) :
    c.pathText = ".".intercalate c.path ↔ c.path.dropLast ≠ [""] := by
  have hempty : ∀ l : List String, ".".intercalate l = "" ↔ l = [] ∨ l = [""] := by
    intro l
    match l with
    | [] => simp
    | [segment] => simp
    | first :: second :: rest => simp [String.intercalate_cons_cons]
  rcases List.eq_nil_or_concat c.path with hpath | ⟨scope, last, hpath⟩
  · simp [pathText, hpath]
  · rw [pathText, hpath, List.concat_eq_append, List.dropLast_concat, List.getLast?_concat,
      Option.getD_some]
    by_cases hscope : scope = []
    · simp [hscope]
    · rw [String.intercalate_append_of_ne_nil hscope (by simp), String.intercalate_singleton]
      by_cases hunnamed : scope = [""]
      · have hdot : last ≠ "." ++ last := fun h => by
          have hlength := congrArg String.length h
          simp at hlength
        simpa [hunnamed] using hdot
      · have hne : ".".intercalate scope ≠ "" := fun h => by
          rcases (hempty scope).1 h with h | h
          · exact hscope h
          · exact hunnamed h
        simp [hne, hunnamed]

theorem Json.exists_of_mem_fieldTrees {level : Level} {key : String} {tree : Tree} :
    ∀ {fields : List (String × Json)}, (key, tree) ∈ Json.fieldTrees level fields →
      ∃ value, (key, value) ∈ fields ∧ tree = value.tree level
  | [], h => by
    rw [Json.fieldTrees] at h
    cases h
  | (k, v) :: rest, h => by
    rw [Json.fieldTrees] at h
    rcases List.mem_cons.1 h with h | h
    · cases h
      exact ⟨v, List.mem_cons_self .., rfl⟩
    · obtain ⟨value, hmem, htree⟩ := exists_of_mem_fieldTrees h
      exact ⟨value, List.mem_cons_of_mem _ hmem, htree⟩

/-- Only an object has something below it. -/
theorem Json.exists_of_leads_cons {level : Level} {value : Json} {segment : String}
    {path : List String} {site : Site} (h : (value.tree level).Leads (segment :: path) site) :
    ∃ fields, value = .obj fields := by
  cases value with
  | obj fields => exact ⟨fields, rfl⟩
  | null | bool _ | num _ | str _ | arr _ =>
    rw [Json.tree] at h
    · obtain ⟨tree, htree, -⟩ := h
      cases htree
    · intro _ hobj
      cases hobj

/-- Of the branches of a graph only an extra field can be unnamed. -/
theorem Graph.exists_of_leads_unnamed {g : Graph} {segment : String} {path : List String}
    {site : Site} (h : g.tree.Leads ("" :: segment :: path) site) :
    ∃ fields, g.extra.get? "" = some (.obj fields) := by
  obtain ⟨tree, hmem, hleads⟩ := h
  have hextra : ("", tree) ∈ g.extra.trees .entries := by
    simpa [trees, collectionTrees, inner] using hmem
  obtain ⟨value, hvalue, rfl⟩ := Json.exists_of_mem_fieldTrees hextra
  obtain ⟨fields, rfl⟩ := Json.exists_of_leads_cons hleads
  exact ⟨fields, Keyed.get?_eq_some_iff_mem.2 hvalue⟩

/-! ## Conflicts of graphs -/

/-- **A merge that fails points at a clash.** Its path leads in both graphs to sites that the policy
forbids to merge. The text of the path is its segments with dots between them, but for one case: a
dot is missing in front of a field of the extra field with the empty name. -/
theorem Graph.merge_clashes {policy : MergePolicy} {base addition : Graph} {c : Conflict}
    (hidentities : addition.IdentitiesDistinct) (hmaps : addition.HasMaps)
    (h : base.merge policy addition = .error c) :
    (∃ old new, base.tree.Leads c.path old ∧ addition.tree.Leads c.path new ∧
      old.Clash policy new) ∧
    (c.pathText = ".".intercalate c.path ∨
      ∃ key, c.path = ["", key] ∧ c.pathText = key ∧
        (∃ fields, base.extra.get? "" = some (.obj fields)) ∧
        ∃ fields, addition.extra.get? "" = some (.obj fields)) := by
  obtain ⟨old, new, hold, hnew, hclash⟩ := Graph.reports_merge hidentities
    (fun path site hleads => hmaps path site hleads.leads) c h
  refine ⟨⟨old, new, hold.leads, hnew.leads, hclash⟩, ?_⟩
  by_cases hscope : c.path.dropLast = [""]
  · obtain ⟨key, hpath⟩ : ∃ key, c.path = ["", key] := by
      match hpath : c.path with
      | [] => simp [hpath] at hscope
      | [segment] => simp [hpath] at hscope
      | [first, key] =>
        obtain rfl : first = "" := by simpa [hpath] using hscope
        exact ⟨key, rfl⟩
      | first :: second :: third :: rest => simp [hpath] at hscope
    rw [hpath] at hold hnew
    exact Or.inr ⟨key, hpath, by simp [Conflict.pathText, hpath],
      exists_of_leads_unnamed hold.leads, exists_of_leads_unnamed hnew.leads⟩
  · exact Or.inl (c.pathText_eq_iff.2 hscope)

/-- A graph with an extra field that has the empty name. -/
def unnamedGraph (value : Int) : Graph where
  extra := .ofList [("", .obj [("x", .num (.int value))])]

/-- The conflict is at `.x`, but its text is that of a conflict at `x`. -/
theorem unnamedGraph_conflict :
    (unnamedGraph 2).IdentitiesDistinct ∧ (unnamedGraph 2).HasMaps ∧
      ∃ c old new, (unnamedGraph 1).merge .strict (unnamedGraph 2) = .error c ∧
        (unnamedGraph 1).tree.Leads c.path old ∧ (unnamedGraph 2).tree.Leads c.path new ∧
        old.Clash .strict new ∧ ".".intercalate c.path = ".x" ∧ c.pathText = "x" := by
  have hidentities : (unnamedGraph 2).IdentitiesDistinct := by decide +kernel
  have hmaps : (unnamedGraph 2).HasMaps := by decide +kernel
  have hconflict : (unnamedGraph 1).merge .strict (unnamedGraph 2) = .error ⟨["", "x"]⟩ := by
    decide +kernel
  obtain ⟨⟨old, new, hold, hnew, hclash⟩, -⟩ := Graph.merge_clashes hidentities hmaps hconflict
  exact ⟨hidentities, hmaps, _, old, new, hconflict, hold, hnew, hclash, by decide +kernel,
    by decide +kernel⟩

end IdlDecls
