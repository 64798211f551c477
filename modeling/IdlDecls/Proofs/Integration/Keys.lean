import IdlDecls.Proofs.Integration.Conventions
import IdlDecls.Proofs.Integration.Locality

/-!
# Keys come from the inputs

No phase of an integration makes up a key: merging takes the keys of both sides, stamping, folding and
exposing change entries where they stand, and pruning only takes entries away. So what is true of the
keys of all inputs, kind by kind, is true of the keys of the result (`Phases.keysIn_result`).
-/

namespace IdlDecls

open Merge Merging

/-- The keys of every kind of definitions that stand under keys are as `P` says. -/
def Graph.KeysIn (P : DefinitionKind → String → Prop) (g : Graph) : Prop :=
  ∀ kind : DefinitionKind, kind.isKeyed = true → ∀ key ∈ g.identities kind, P kind key

variable {P : DefinitionKind → String → Prop}

/-- Graphs with the same keys. -/
theorem Graph.KeysIn.congr {g h : Graph} (hg : g.KeysIn P) (heq : h.identities = g.identities) :
    h.KeysIn P := by
  intro kind hkind key hkey
  exact hg kind hkind key (heq ▸ hkey)

/-! ## Merging -/

theorem mem_keysOf_collection {α : Type} {level : Policy} {field entries : String}
    {join : α → α → Merging α} {base addition result : Option (Keyed α)}
    (h : collection level field entries join base addition = .ok result) {key : String} :
    key ∈ keysOf result ↔ key ∈ keysOf base ∨ key ∈ keysOf addition := by
  rw [mem_keysOf, mem_keysOf, mem_keysOf, isSome_lookup?_collection h, Bool.or_eq_true]

/-- A merge has the keys of both sides. -/
theorem Graph.mem_identities_merge {policy : MergePolicy} {base addition result : Graph}
    (h : base.merge policy addition = .ok result) {kind : DefinitionKind}
    (hkind : kind.isKeyed = true) {key : String} :
    key ∈ result.identities kind ↔ key ∈ base.identities kind ∨ key ∈ addition.identities kind := by
  have hmerged := Graph.merge_eq_ok_iff.1 h
  cases kind with
  | callbackFunctions => exact mem_keysOf_collection hmerged.callbackFunctions
  | callbackInterfaces => exact mem_keysOf_collection hmerged.callbackInterfaces
  | dictionaries => exact mem_keysOf_collection hmerged.dictionaries
  | enums => exact mem_keysOf_collection hmerged.enums
  | interfaces => exact mem_keysOf_collection hmerged.interfaces
  | mixins => exact mem_keysOf_collection hmerged.mixins
  | typedefs | namespaces => cases hkind

theorem Graph.KeysIn.merge {policy : MergePolicy} {base addition result : Graph}
    (hb : base.KeysIn P) (ha : addition.KeysIn P) (h : base.merge policy addition = .ok result) :
    result.KeysIn P := by
  intro kind hkind key hkey
  rcases (Graph.mem_identities_merge h hkind).1 hkey with hkey | hkey
  · exact hb kind hkind key hkey
  · exact ha kind hkind key hkey

/-! ## Stamping and folding -/

theorem Fragment.identities_stampDeprecated (f : Fragment) :
    f.stampDeprecated.definitions.identities = f.definitions.identities := by
  rw [Fragment.stampDeprecated]
  split
  · funext kind
    cases kind with
    | interfaces => exact keysOf_map_entries _ _
    | _ => rfl
  · rfl

theorem Collection.identities_replace (c : Collection) (g : Graph) (name : String) (i : Interface) :
    (c.replace g name i).identities = g.identities := by
  funext kind
  cases c with
  | interfaces =>
    cases kind with
    | interfaces => exact keysOf_map_entries _ _
    | _ => rfl
  | mixins =>
    cases kind with
    | mixins => exact keysOf_map_entries _ _
    | _ => rfl

theorem Graph.identities_foldIncludes {options : Options} {fragments : List Fragment}
    {state next : Folded} (h : foldIncludes options fragments state = .ok next) :
    next.graph.identities = state.graph.identities :=
  frame_foldIncludes Graph.identities Collection.identities_replace h

/-! ## Pruning -/

section Pruning

variable {α : Type} {Q : String → Prop}

theorem forall_mem_keysOf_iff {c : Option (Keyed α)} :
    (∀ key ∈ keysOf c, Q key) ↔ EachEntry (fun key _ => Q key) c := by
  simp only [mem_keysOf, Option.isSome_iff_exists, EachEntry, forall_exists_index]

/-- What is left of a collection has none but its keys, also when names are filled in. -/
theorem keysOf_left {read : Json → Reading α} {write : α → Json} {template : Option Template}
    {left : List (String × Json)} {field entries : String} {c result : Option (Keyed α)}
    {fill : String → α → α} (hc : ∀ key ∈ keysOf c, Q key)
    (h : Pruned template (c.map (Write.collection .ascending entries write))
      (Entries.get? left field))
    (hread : Read.optional (Read.collection entries read) left field = .ok result) :
    ∀ key ∈ keysOf (result.map (·.map fill)), Q key := by
  rw [keysOf_map_entries, forall_mem_keysOf_iff]
  exact (forall_mem_keysOf_iff.1 hc).leftOf (fun _ _ _ hkey _ => hkey) h hread

/-- **Pruning brings no key.** -/
theorem Graph.KeysIn.prune {g pruned : Graph} {template : Template} (htidy : g.Tidy)
    (hg : g.KeysIn P) (h : g.prune template = .ok pruned) : pruned.KeysIn P := by
  obtain ⟨left, raw, hfields, hraw, rfl⟩ := Graph.prune_raw h rfl (Entries.ascending_sorted _)
  have hleft := fun key (hkey : key ∈ Graph.fieldKeys) =>
    get?_written htidy.extra hkey _ ▸ hfields key
  simp only [Graph.ofRawJson, bind_eq_ok_iff, pure_eq_ok_iff] at hraw
  obtain ⟨_, hobject, functions, hfunctions, callbacks, hcallbacks, dictionaries, hdictionaries, enums,
    henums, interfaces, hinterfaces, mixins, hmixins, _, -, _, -, rfl⟩ := hraw
  cases pure_eq_ok_iff.1 hobject
  intro kind hkind
  cases kind with
  | callbackFunctions =>
    exact keysOf_left (hg .callbackFunctions rfl)
      (by simpa using hleft "callback-functions" (by decide)) hfunctions
  | callbackInterfaces =>
    exact keysOf_left (hg .callbackInterfaces rfl)
      (by simpa using hleft "callback-interfaces" (by decide)) hcallbacks
  | dictionaries =>
    exact keysOf_left (hg .dictionaries rfl) (by simpa using hleft "dictionaries" (by decide))
      hdictionaries
  | enums => exact keysOf_left (hg .enums rfl) (by simpa using hleft "enums" (by decide)) henums
  | interfaces =>
    exact keysOf_left (hg .interfaces rfl) (by simpa using hleft "interfaces" (by decide))
      hinterfaces
  | mixins => exact keysOf_left (hg .mixins rfl) (by simpa using hleft "mixins" (by decide)) hmixins
  | typedefs | namespaces => cases hkind

end Pruning

/-! ## Runs -/

theorem Graph.identities_applyExposureOverrides {g result : Graph} {count : Nat}
    (h : g.applyExposureOverrides = .ok (result, count)) : result.identities = g.identities := by
  obtain ⟨-, rfl, -⟩ := Graph.applyExposureOverrides_eq_ok_iff.1 h
  funext kind
  cases kind with
  | interfaces => exact keysOf_map_entries _ _
  | _ => rfl

/-- The keys of all corrections are as `P` says; a removal template brings none. -/
structure Corrections.KeysIn (P : DefinitionKind → String → Prop) (corrections : Corrections) :
    Prop where
  additions : corrections.additions.KeysIn P
  overrides : corrections.overrides.KeysIn P
  comments : corrections.comments.KeysIn P

section Phases

variable {options : Options} {baseline : Graph} {fragments : List Fragment}
  {corrections : Corrections}

/-- What is pruned has the keys of the baseline and of the fragments. -/
theorem Phases.keysIn_included (p : Phases options baseline fragments corrections)
    (hb : baseline.KeysIn P) (hf : ∀ f ∈ fragments, f.definitions.KeysIn P) :
    p.included.graph.KeysIn P := by
  have hmerged : p.merged.KeysIn P := by
    refine foldlM_keeps ?_ hb p.merging
    intro stamped hstamped g next hg hnext
    obtain ⟨f, hmem, rfl⟩ := List.mem_map.1 hstamped
    exact hg.merge ((hf f hmem).congr f.identities_stampDeprecated) (mergeStandard_step hnext)
  have hfolded : p.folded.graph.KeysIn P :=
    hmerged.congr (Graph.identities_foldPartials p.folding)
  exact hfolded.congr (Graph.identities_foldIncludes p.including)

/-- **What is true of the keys of all inputs is true of the keys of the result.** -/
theorem Phases.keysIn_result (p : Phases options baseline fragments corrections)
    (htidy : p.included.graph.Tidy) (hb : baseline.KeysIn P)
    (hf : ∀ f ∈ fragments, f.definitions.KeysIn P) (hc : corrections.KeysIn P) :
    p.result.KeysIn P := by
  have hpruned := (p.keysIn_included hb hf).prune htidy p.pruning
  have hadded := hpruned.merge hc.additions (mapError_eq_ok_iff.1 p.adding)
  have hoverridden := hadded.merge hc.overrides (mapError_eq_ok_iff.1 p.overriding)
  have hcommented := hoverridden.merge hc.comments (mapError_eq_ok_iff.1 p.commenting)
  exact hcommented.congr (Graph.identities_applyExposureOverrides p.exposing)

end Phases

end IdlDecls
