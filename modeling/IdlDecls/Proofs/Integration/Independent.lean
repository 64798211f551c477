import IdlDecls.Proofs.Integration.Isolation
import IdlDecls.Proofs.Merge.Disjoint

/-!
# Independent fragments commute

Two fragments that bring nothing under the same key may extend the same graph, even the same collections
of it, in either order: the merges end well in one order exactly if they do in the other, and then with
the same graph (`mergeStandard_independent`). The policy plays no part in this, so that it holds of merges
under every policy (`Graph.merge_swap`). What carries it is that a merge of collections is a merge at
every key, and that of two additions one at most has something there.
-/

namespace IdlDecls

open Merge Merging

/-! ## Collections -/

section Collections

variable {α ε : Type}

namespace Keyed

variable {join : String → α → α → Except ε α} {base a b mid result : Keyed α}

theorem get?_eq_none_or_of_disjoint {a b : Keyed α} (h : a.keys.Disjoint b.keys) (key : String) :
    a.get? key = none ∨ b.get? key = none := by
  by_contra! hboth
  exact h (mem_keys_iff.2 (Option.isSome_iff_ne_none.2 hboth.1))
    (mem_keys_iff.2 (Option.isSome_iff_ne_none.2 hboth.2))

/-- Two collections without a shared key are joined in either order. -/
theorem joinM_comm_of_disjoint (hab : ∀ key, a.get? key = none ∨ b.get? key = none)
    (h : joinM join a b = .ok result) : joinM join b a = .ok result := by
  rw [joinM_eq_ok_iff] at h ⊢
  intro key
  have hkey := h key
  rcases hab key with hnone | hnone
  · rw [hnone, Joined.none_left_iff] at hkey
    rw [hnone, hkey]
    exact .base _
  · rw [hnone, Joined.none_right_iff] at hkey
    rw [hnone, hkey]
    exact .addition _

/-- **Two collections without a shared key come to a third in either order.** -/
theorem joinM_swap (hab : ∀ key, a.get? key = none ∨ b.get? key = none)
    (hmid : joinM join base a = .ok mid) (h : joinM join mid b = .ok result) :
    ∃ mid', joinM join base b = .ok mid' ∧ joinM join mid' a = .ok result := by
  have hkey : ∀ key, ∃ v, Joined (fun old new merged => join key old new = .ok merged)
      (base.get? key) (b.get? key) v ∧
      Joined (fun old new merged => join key old new = .ok merged) v (a.get? key)
        (result.get? key) := by
    intro key
    -- at every key one of the two additions is missing, so there is nothing to commute
    refine Joined.swap ?_ ?_ (get?_joinM hmid key) (get?_joinM h key)
    all_goals
      intro x hx y hy
      rcases hab key with hnone | hnone
      · exact absurd hx (by simp [hnone])
      · exact absurd hy (by simp [hnone])
  obtain ⟨mid', hmid'⟩ := joinM_of_joined fun key => (hkey key).imp fun _ hv => hv.1
  refine ⟨mid', hmid', joinM_eq_ok_iff.2 fun key => ?_⟩
  obtain ⟨v, hv, hresult⟩ := hkey key
  have hfound : v = mid'.get? key :=
    hv.unique (fun _ _ _ _ hm hm' => Except.ok.inj (hm.symm.trans hm')) (get?_joinM hmid' key)
  rwa [← hfound]

end Keyed

theorem collection_swap {level : Policy} {field entries : String} {join : α → α → Merging α}
    {base a b mid result : Option (Keyed α)} (hab : (keysOf a).Disjoint (keysOf b))
    (hmid : collection level field entries join base a = .ok mid)
    (h : collection level field entries join mid b = .ok result) :
    ∃ mid', collection level field entries join base b = .ok mid' ∧
      collection level field entries join mid' a = .ok result := by
  simp only [collection, within_eq_ok_iff, optional_eq_ok_iff] at hmid h ⊢
  have hnone : ∀ x ∈ a, ∀ y ∈ b, ∀ key, x.get? key = none ∨ y.get? key = none := by
    rintro x rfl y rfl
    exact Keyed.get?_eq_none_or_of_disjoint hab
  exact Joined.swap (fun x hx y hy _ => Keyed.joinM_comm_of_disjoint (hnone x hx y hy))
    (fun x hx y hy _ _ _ => Keyed.joinM_swap (hnone x hx y hy)) hmid h

end Collections

/-! ## Lists -/

section Lists

variable {α ε : Type}

/-- Two additions come to every base in either order, with one result or one failure. -/
def Commutes (f : α → α → Except ε α) (a b : α) : Prop :=
  ∀ base, (f base a >>= fun mid => f mid b) = (f base b >>= fun mid => f mid a)

theorem Commutes.symm {f : α → α → Except ε α} {a b : α} (h : Commutes f a b) : Commutes f b a :=
  fun base => (h base).symm

theorem Commutes.swap {f : α → α → Except ε α} {a b base mid result : α} (h : Commutes f a b)
    (hmid : f base a = .ok mid) (hresult : f mid b = .ok result) :
    ∃ mid', f base b = .ok mid' ∧ f mid' a = .ok result := by
  rw [← bind_eq_ok_iff, ← h base, bind_eq_ok_iff]
  exact ⟨mid, hmid, hresult⟩

/-- What is not there comes in either order. -/
theorem Commutes.of_none {f : Option α → Option α → Except ε (Option α)}
    (hf : ∀ base, f base none = .ok base) (b : Option α) : Commutes f none b := by
  intro base
  rw [hf]
  cases hb : f base b with
  | error e => exact hb
  | ok mid => exact hb.trans (hf mid).symm

/-- An empty list comes in either order with one that an empty list takes in as it is. -/
theorem Commutes.of_nil {join : List α → List α → Merging (List α)} {items : List α}
    (hnil : ∀ base, join base [] = .ok base) (hitems : join [] items = .ok items) :
    Commutes (Merge.optional join) (some []) (some items) := by
  rintro (_ | base)
  · change some <$> join [] items = some <$> join items []
    rw [hitems, hnil]
  · change (some <$> join base [] >>= _) = (some <$> join base items >>= _)
    rw [hnil]
    cases hmerged : join base items with
    | error e => exact congrArg (some <$> ·) hmerged
    | ok merged =>
      change some <$> join base items = some <$> join merged []
      rw [hmerged, hnil]

end Lists

/-! ## Graphs -/

namespace Graph

/-- The type definitions of a graph are not there, or they are an empty list and those of the other
graph have distinct names. An empty list is not nothing: what comes to it is merged item by item, and
what comes to no list is taken as it is (`not_commutes_of_repeats`). -/
def LeavesTypedefs (a b : Graph) : Prop :=
  a.typedefs = none ∨
    a.typedefs = some [] ∧ IdlDecls.IdentitiesDistinct Typedef.name (b.typedefs.getD [])

/-- Two graphs that bring nothing under the same key, neither an entry nor an extra field, and of which
one at most has type definitions and one at most has namespaces. -/
structure Independent (a b : Graph) : Prop where
  keys : ∀ kind : DefinitionKind, kind.isKeyed = true →
    (a.identities kind).Disjoint (b.identities kind)
  extra : a.extra.keys.Disjoint b.extra.keys
  typedefs : a.LeavesTypedefs b ∨ b.LeavesTypedefs a
  namespaces : a.namespaces.getD [] = [] ∨ b.namespaces.getD [] = []

theorem Independent.symm {a b : Graph} (h : a.Independent b) : b.Independent a where
  keys kind hkind := List.disjoint_comm.1 (h.keys kind hkind)
  extra := List.disjoint_comm.1 h.extra
  typedefs := h.typedefs.symm
  namespaces := h.namespaces.symm

theorem LeavesTypedefs.commutes {a b : Graph} (h : a.LeavesTypedefs b) (level : Policy) :
    Commutes (Merge.optional fun old value => within "typedef" (mergeTypedefs level old value))
      a.typedefs b.typedefs := by
  rcases h with hnone | ⟨hempty, hdistinct⟩
  · rw [hnone]
    exact .of_none (optional_none _) b.typedefs
  · rw [hempty]
    cases hb : b.typedefs with
    | none => exact (Commutes.of_none (optional_none _) _).symm
    | some items =>
      rw [hb, Option.getD_some] at hdistinct
      have hitems : mergeTypedefs level [] items = .ok items :=
        identified_of_fresh hdistinct fun _ _ => by simp
      exact .of_nil (fun _ => rfl) (within_eq_ok_iff.2 hitems)

/-- Two type definitions of one name are kept apart where there is no list, and meet where there is an
empty one. -/
theorem not_commutes_of_repeats :
    ¬ Commutes (Merge.optional fun old value => within "typedef" (mergeTypedefs .override old value))
      (some []) (some [{ name := "Car" }, { name := "Car" }]) :=
  fun h => absurd (h none) (by decide +kernel)

/-- A list of namespaces is merged item by item also where there was none, so an empty one makes no
difference to others. -/
theorem commutes_mergeNamespaceLists {policy : MergePolicy} {a : Option (List Interface)}
    (h : a.getD [] = []) (b : Option (List Interface)) :
    Commutes (mergeNamespaceLists policy) a b := by
  cases a with
  | none => exact .of_none (fun _ => rfl) b
  | some items =>
    obtain rfl : items = [] := h
    intro base
    cases b with
    | none => rfl
    | some more =>
      change some <$> mergeNamespaces policy (base.getD []) more =
        (some <$> mergeNamespaces policy (base.getD []) more >>= _)
      cases mergeNamespaces policy (base.getD []) more <;> rfl

/-- **Independent graphs come to a graph in either order**, under every policy. -/
theorem merge_swap {policy : MergePolicy} {base a b mid result : Graph} (hab : a.Independent b)
    (hmid : base.merge policy a = .ok mid) (h : mid.merge policy b = .ok result) :
    ∃ mid', base.merge policy b = .ok mid' ∧ mid'.merge policy a = .ok result := by
  rw [merge_eq_ok_iff] at hmid h
  obtain ⟨functions, hfunctions, hfunctions'⟩ := collection_swap (hab.keys .callbackFunctions rfl)
    hmid.callbackFunctions h.callbackFunctions
  obtain ⟨callbacks, hcallbacks, hcallbacks'⟩ := collection_swap (hab.keys .callbackInterfaces rfl)
    hmid.callbackInterfaces h.callbackInterfaces
  obtain ⟨dictionaries, hdictionaries, hdictionaries'⟩ := collection_swap
    (hab.keys .dictionaries rfl) hmid.dictionaries h.dictionaries
  obtain ⟨enums, henums, henums'⟩ := collection_swap (hab.keys .enums rfl) hmid.enums h.enums
  obtain ⟨interfaces, hinterfaces, hinterfaces'⟩ := collection_swap (hab.keys .interfaces rfl)
    hmid.interfaces h.interfaces
  obtain ⟨mixins, hmixins, hmixins'⟩ := collection_swap (hab.keys .mixins rfl) hmid.mixins h.mixins
  have htypedefs : Commutes _ a.typedefs b.typedefs :=
    hab.typedefs.elim (·.commutes policy.entries) fun h => (h.commutes policy.entries).symm
  obtain ⟨typedefs, htypedefs, htypedefs'⟩ := htypedefs.swap hmid.typedefs h.typedefs
  have hnamespaces : Commutes (mergeNamespaceLists policy) a.namespaces b.namespaces :=
    hab.namespaces.elim (commutes_mergeNamespaceLists · b.namespaces) fun h =>
      (commutes_mergeNamespaceLists h a.namespaces).symm
  obtain ⟨namespaces, hnamespaces, hnamespaces'⟩ := hnamespaces.swap hmid.namespaces h.namespaces
  obtain ⟨extra, hextra, hextra'⟩ :=
    Keyed.joinM_swap (Keyed.get?_eq_none_or_of_disjoint hab.extra) hmid.extra h.extra
  refine ⟨⟨functions, callbacks, dictionaries, enums, interfaces, mixins, typedefs, namespaces,
    extra⟩, merge_eq_ok_iff.2 ?_, merge_eq_ok_iff.2 ?_⟩
  · exact ⟨hfunctions, hcallbacks, hdictionaries, henums, hinterfaces, hmixins, htypedefs,
      hnamespaces, hextra⟩
  · exact ⟨hfunctions', hcallbacks', hdictionaries', henums', hinterfaces', hmixins', htypedefs',
      hnamespaces', hextra'⟩

end Graph

/-! ## Fragments -/

/-- The complete definitions of two fragments are independent. -/
def Fragment.Independent (f f' : Fragment) : Prop :=
  f.definitions.Independent f'.definitions

/-- The first two fragments change places. -/
theorem mergeStandard_swap {g result : Graph} {f f' : Fragment} {fragments : List Fragment}
    (hff : f.Independent f') (h : mergeStandard g (f :: f' :: fragments) = .ok result) :
    mergeStandard g (f' :: f :: fragments) = .ok result := by
  obtain ⟨mid, hmid, h⟩ := foldlM_cons_eq_ok_iff.1 h
  obtain ⟨next, hnext, hrest⟩ := foldlM_cons_eq_ok_iff.1 h
  obtain ⟨mid', hmid', hnext'⟩ :=
    Graph.merge_swap hff (mergeStandard_step hmid) (mergeStandard_step hnext)
  exact foldlM_cons_eq_ok_iff.2 ⟨mid', mapError_eq_ok_iff.2 hmid',
    foldlM_cons_eq_ok_iff.2 ⟨next, mapError_eq_ok_iff.2 hnext', hrest⟩⟩

/-- **Fragments that are independent of each other are merged in any order**, by induction on the way
from one order to the other. -/
theorem mergeStandard_perm {fragments fragments' : List Fragment} (hperm : fragments.Perm fragments')
    (hindependent : fragments.Pairwise Fragment.Independent) {g result : Graph}
    (h : mergeStandard g fragments = .ok result) : mergeStandard g fragments' = .ok result := by
  induction hperm generalizing g with
  | nil => exact h
  | cons f _ ih =>
    obtain ⟨next, hnext, hrest⟩ := foldlM_cons_eq_ok_iff.1 h
    exact foldlM_cons_eq_ok_iff.2 ⟨next, hnext, ih hindependent.of_cons hrest⟩
  | swap f f' fragments =>
    exact mergeStandard_swap (List.rel_of_pairwise_cons hindependent (List.mem_cons_self ..)) h
  | trans hfirst _ ih ih' =>
    exact ih' (hindependent.perm hfirst fun h => Graph.Independent.symm h) (ih hindependent h)

/-- **Independent fragments commute**: merging them in one order ends well exactly if merging them in
the other does, and then with the same graph. -/
theorem mergeStandard_independent (g : Graph) {f f' : Fragment}
    (hff : f.definitions.Independent f'.definitions) (result : Graph) :
    mergeStandard g [f, f'] = .ok result ↔ mergeStandard g [f', f] = .ok result := by
  have hswap : [f, f'].Perm [f', f] := .swap ..
  constructor
  · exact mergeStandard_perm hswap (List.pairwise_pair.2 hff)
  · exact mergeStandard_perm hswap.symm (List.pairwise_pair.2 (Graph.Independent.symm hff))

/-- A graph of a tram line. -/
def tramGraph : Graph where
  interfaces := some (.ofList [("Tram", { name := "Tram", exposed := some (.ofList ["Window"]) })])
  dictionaries := some (.ofList [("Ticket", { name := "Ticket" })])

/-- A fragment that extends the trams and brings type definitions. -/
def tramFragment : Fragment where
  definitions := {
    interfaces := some (.ofList [("Tram", {
      name := "Tram"
      methods := some (.ofList [("board", { name := "board", signatures := [{}] })]) })])
    typedefs := some [{ name := "Car", type := ⟨some (.named "unsigned short"), none, none⟩ }] }

/-- A fragment that extends the tickets and brings another interface. -/
def ticketFragment : Fragment where
  definitions := {
    interfaces := some (.ofList [("Counter", { name := "Counter" })])
    dictionaries := some (.ofList [("Ticket", {
      name := "Ticket"
      members := some (.ofList [("price", { name := "price" })]) })]) }

theorem tramGraph_mergeStandard :
    tramFragment.definitions.Independent ticketFragment.definitions ∧
      ∃ result, mergeStandard tramGraph [tramFragment, ticketFragment] = .ok result ∧
        mergeStandard tramGraph [ticketFragment, tramFragment] = .ok result ∧
        ((result.interface? "Tram").any fun i => (i.method? "board").isSome) = true := by
  have hkinds : ∀ kind, tramFragment.definitions.clashIn? ticketFragment.definitions kind = none := by
    intro kind
    cases kind <;> decide +kernel
  have hff : tramFragment.definitions.Independent ticketFragment.definitions :=
    ⟨fun kind _ => Graph.clashIn?_eq_none_iff.1 (hkinds kind), List.disjoint_nil_left _,
      Or.inr (Or.inl rfl), Or.inl rfl⟩
  have hboard : (match mergeStandard tramGraph [tramFragment, ticketFragment] with
      | .ok result => (result.interface? "Tram").any fun i => (i.method? "board").isSome
      | .error _ => false) = true := by decide +kernel
  cases hmerged : mergeStandard tramGraph [tramFragment, ticketFragment] with
  | error e => simp [hmerged] at hboard
  | ok result =>
    rw [hmerged] at hboard
    exact ⟨hff, result, rfl, (mergeStandard_independent tramGraph hff result).1 hmerged, hboard⟩

end IdlDecls
