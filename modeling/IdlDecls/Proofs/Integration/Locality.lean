import IdlDecls.Proofs.Integration.Strict
import IdlDecls.Proofs.Integration.Targets
import IdlDecls.Proofs.Merge.Disjoint
import IdlDecls.Proofs.Merge.Members

/-!
# Folding is local

The partial definitions of many targets come interleaved, fragment by fragment, and a partial interface
without an interface goes to a mixin. Still every entry ends where the partial definitions of its own
name lead it one after the other, and nothing else changes: a lenient fold always ends, and
`Graph.FoldedInto` says of one graph alone that it is the end (`foldPartials_local`). What an entry
receives from a partial definition does not depend on the collection in which the entry was found.
-/

namespace IdlDecls

open Merge Merging

/-! ## All but the members -/

/-- An interface without its constants, methods and properties. -/
def Interface.withoutMembers (i : Interface) : Interface :=
  { i with constants := none, methods := none, properties := none }

def Dictionary.withoutMembers (d : Dictionary) : Dictionary :=
  { d with members := none }

/-- What partial definitions leave alone: a graph without the members of its interfaces, mixins and
dictionaries. -/
def Graph.withoutMembers (g : Graph) : Graph :=
  { g with
    interfaces := g.interfaces.map (·.map fun _ i => i.withoutMembers)
    mixins := g.mixins.map (·.map fun _ i => i.withoutMembers)
    dictionaries := g.dictionaries.map (·.map fun _ d => d.withoutMembers) }

theorem Interface.withoutMembers_eq_iff {base merged : Interface} :
    merged.withoutMembers = base.withoutMembers ↔ merged = { base with
      constants := merged.constants
      methods := merged.methods
      properties := merged.properties } := by
  cases base
  cases merged
  simp [withoutMembers]

theorem Dictionary.withoutMembers_eq_iff {base merged : Dictionary} :
    merged.withoutMembers = base.withoutMembers ↔ merged = { base with members := merged.members } := by
  cases base
  cases merged
  simp [withoutMembers]

section Entries

variable {α β : Type}

theorem keysOf_map_entries (f : String → α → β) (c : Option (Keyed α)) :
    keysOf (c.map (·.map f)) = keysOf c := by
  cases c with
  | none => rfl
  | some m => exact m.keys_map f

/-- Replacing an entry shows in no part in which the two entries are the same. -/
theorem map_entries_modify {f : α → β} {c : Option (Keyed α)} {name : String} {old new : α}
    (hold : lookup? c name = some old) (h : f new = f old) :
    (c.map (·.modify name fun _ => new)).map (·.map fun _ => f) = c.map (·.map fun _ => f) := by
  cases c with
  | none => rfl
  | some m =>
    refine congrArg some (Keyed.ext_get? fun key => ?_)
    rw [Keyed.get?_map, Keyed.get?_map, Keyed.get?_modify]
    split
    · rename_i hkey
      rw [hkey, show m.get? name = some old from hold, Option.map_some, Option.map_some,
        Option.map_some, h]
    · rfl

/-- A collection is determined by a part of each entry, and by what each entry of that part stands
for. -/
theorem eq_of_entries_determined {f : α → β} {R : String → α → α → Prop}
    {base c d : Option (Keyed α)} (hR : ∀ name i j k, R name i j → R name i k → j = k)
    (hc : c.map (·.map fun _ => f) = base.map (·.map fun _ => f))
    (hd : d.map (·.map fun _ => f) = base.map (·.map fun _ => f))
    (hce : ∀ name i, lookup? base name = some i → ∃ j, lookup? c name = some j ∧ R name i j)
    (hde : ∀ name i, lookup? base name = some i → ∃ j, lookup? d name = some j ∧ R name i j) :
    c = d := by
  have hlookup : ∀ name, lookup? c name = lookup? d name := by
    intro name
    cases hi : lookup? base name with
    | some i =>
      obtain ⟨j, hj, hij⟩ := hce name i hi
      obtain ⟨k, hk, hik⟩ := hde name i hi
      rw [hj, hk, hR name i j k hij hik]
    | none =>
      have habsent : ∀ e : Option (Keyed α), e.map (·.map fun _ => f) =
          base.map (·.map fun _ => f) → lookup? e name = none := by
        intro e he
        have hname := congrArg (lookup? · name) he
        simpa only [lookup?_map_values, hi, Option.map_none, Option.map_eq_none_iff] using hname
      rw [habsent c hc, habsent d hd]
  have hsome : c.isSome = d.isSome := by
    have h := congrArg Option.isSome (hc.trans hd.symm)
    simpa only [Option.isSome_map] using h
  exact eq_of_lookup? hsome hlookup

end Entries

theorem Graph.identities_withoutMembers (g : Graph) : g.withoutMembers.identities = g.identities := by
  funext kind
  cases kind with
  | interfaces | mixins | dictionaries => exact keysOf_map_entries _ _
  | _ => rfl

/-! ## One partial definition -/

/-- The exposure that a member of a partial definition comes with: its own, else that of the partial
definition, else that of the entry. An exposure that is empty counts as none. -/
def Interface.foldedExposure (base part : Interface) (own : Option Exposure) : Option Exposure :=
  (Exposure.nonempty? own).or
    ((Exposure.nonempty? part.exposed).or ((Exposure.nonempty? base.exposed).or own))

/-- An entry with a partial definition folded into it: the members of the partial definition come with
their exposures and override those of the entry, and nothing else changes. -/
structure Interface.PartialFolded (part base merged : Interface) : Prop where
  others : merged.withoutMembers = base.withoutMembers
  constants : Joined (ByKey Constant.Overridden) base.constants
    (part.constants.map (·.map fun _ c => { c with exposed := base.foldedExposure part c.exposed }))
    merged.constants
  methods : Joined (ByKey Method.Overridden) base.methods
    (part.methods.map (·.map fun _ m => { m with exposed := base.foldedExposure part m.exposed }))
    merged.methods
  properties : Joined (ByKey Property.Overridden) base.properties
    (part.properties.map (·.map fun _ p => { p with exposed := base.foldedExposure part p.exposed }))
    merged.properties

/-- A dictionary with a partial one folded into it. -/
structure Dictionary.PartialFolded (part base merged : Dictionary) : Prop where
  others : merged.withoutMembers = base.withoutMembers
  members : Joined (ByKey Member.Overridden) base.members part.members merged.members

/-- The exposures with which the members of a partial definition are folded. -/
theorem Interface.members_exposedFor (base part : Interface) :
    (base.exposedFor part).constants = part.constants.map
        (·.map fun _ c => { c with exposed := base.foldedExposure part c.exposed }) ∧
      (base.exposedFor part).methods = part.methods.map
        (·.map fun _ m => { m with exposed := base.foldedExposure part m.exposed }) ∧
      (base.exposedFor part).properties = part.properties.map
        (·.map fun _ p => { p with exposed := base.foldedExposure part p.exposed }) := by
  have hown : ∀ own : Option Exposure, base.foldedExposure part own =
      (Exposure.nonempty? own).or ((effectiveExposure part.exposed base.exposed).or own) := by
    intro own
    rw [foldedExposure, effectiveExposure, Option.or_assoc]
  rw [exposedFor]
  cases heffective : effectiveExposure part.exposed base.exposed with
  | some exposure =>
    simp only [hown, heffective, Option.some_or]
    exact ⟨rfl, rfl, rfl⟩
  | none =>
    -- without an exposure to hand down every member keeps what it has, the empty one included
    have hkept : base.foldedExposure part = id := by
      funext own
      rw [hown, heffective, Option.none_or, id]
      cases own with
      | none => rfl
      | some e =>
        rw [Exposure.nonempty?, Option.filter_some]
        split <;> rfl
    have hmap : ∀ {α : Type} (c : Option (Keyed α)), c.map (·.map fun _ value => value) = c := by
      intro α c
      cases c with
      | none => rfl
      | some m => exact congrArg some (Keyed.ext_get? fun key => by simp)
    simp only [hkept, id]
    exact ⟨(hmap _).symm, (hmap _).symm, (hmap _).symm⟩

/-- **Folding a partial definition into an entry** ends as `Interface.PartialFolded` says. -/
theorem Interface.foldPartial_eq_ok_iff {base part merged : Interface} :
    base.foldPartial part = .ok merged ↔ Interface.PartialFolded part base merged := by
  obtain ⟨hconstants, hmethods, hproperties⟩ := members_exposedFor base part
  rw [foldPartial_iff_mergeMembers, mergeMembers_eq_ok_iff, ← withoutMembers_eq_iff]
  have hpolicy : MergePolicy.override.members = .override := rfl
  rw [hpolicy, mergeConstants_override_iff, mergeMethods_override_iff, mergeProperties_override_iff,
    hconstants, hmethods, hproperties]
  constructor
  · rintro ⟨hc, hm, hp, hothers⟩
    exact ⟨hothers, hc, hm, hp⟩
  · intro h
    exact ⟨h.constants, h.methods, h.properties, h.others⟩

theorem Dictionary.mergeMembers_override_iff {base part merged : Dictionary} :
    base.mergeMembers .override part = .ok merged ↔ Dictionary.PartialFolded part base merged := by
  simp only [mergeMembers, within_eq_ok_iff, bind_eq_ok_iff, pure_eq_ok_iff]
  constructor
  · rintro ⟨members, hmembers, rfl⟩
    exact ⟨rfl, mergeMemberMap_override_iff.1 hmembers⟩
  · intro h
    exact ⟨merged.members, mergeMemberMap_override_iff.2 h.members,
      (withoutMembers_eq_iff.1 h.others).symm⟩

theorem Interface.PartialFolded.unique {part base merged merged' : Interface}
    (h : Interface.PartialFolded part base merged) (h' : Interface.PartialFolded part base merged') :
    merged = merged' :=
  Except.ok.inj ((foldPartial_eq_ok_iff.2 h).symm.trans (foldPartial_eq_ok_iff.2 h'))

theorem Dictionary.PartialFolded.unique {part base merged merged' : Dictionary}
    (h : Dictionary.PartialFolded part base merged)
    (h' : Dictionary.PartialFolded part base merged') : merged = merged' :=
  Except.ok.inj ((mergeMembers_override_iff.2 h).symm.trans (mergeMembers_override_iff.2 h'))

/-! ## The partial definitions of one target -/

/-- The partial definitions that go to the interface with a name. -/
def interfaceParts (fragments : List Fragment) (name : String) : List Interface :=
  (fragments.flatMap (·.partialInterfaces)).filter (·.name = name)

/-- The partial definitions that go to the mixin with a name: in each fragment the partial interfaces,
if the graph has no interface of that name, and behind them the partial mixins. -/
def Graph.mixinParts (g : Graph) (fragments : List Fragment) (name : String) : List Interface :=
  fragments.flatMap fun f =>
    (if (g.interface? name).isNone then f.partialInterfaces.filter (·.name = name) else []) ++
      f.partialMixins.filter (·.name = name)

/-- The partial dictionaries with a name. -/
def dictionaryParts (fragments : List Fragment) (name : String) : List Dictionary :=
  (fragments.flatMap (·.partialDictionaries)).filter (·.name = name)

/-- Where the partial definitions of fragments lead a graph. Entries are where they were and the same
but for their members, and each comes out of the partial definitions of its name in their order. -/
structure Graph.FoldedInto (fragments : List Fragment) (g result : Graph) : Prop where
  others : result.withoutMembers = g.withoutMembers
  interfaces : ∀ name i, g.interface? name = some i → ∃ i', result.interface? name = some i' ∧
    Run Interface.PartialFolded (interfaceParts fragments name) i i'
  mixins : ∀ name i, g.mixin? name = some i → ∃ i', result.mixin? name = some i' ∧
    Run Interface.PartialFolded (g.mixinParts fragments name) i i'
  dictionaries : ∀ name d, g.dictionary? name = some d → ∃ d', result.dictionary? name = some d' ∧
    Run Dictionary.PartialFolded (dictionaryParts fragments name) d d'

/-- There is one such graph. -/
theorem Graph.FoldedInto.unique {fragments : List Fragment} {g result result' : Graph}
    (h : g.FoldedInto fragments result) (h' : g.FoldedInto fragments result') : result = result' := by
  have hrun {parts : List Interface} {i j k : Interface}
      (hj : Run Interface.PartialFolded parts i j) (hk : Run Interface.PartialFolded parts i k) :
      j = k := Run.unique (fun _ _ _ _ h h' => h.unique h') hj hk
  have hfields := h.others.trans h'.others.symm
  have hinterfaces : result.interfaces = result'.interfaces :=
    eq_of_entries_determined
      (R := fun name => Run Interface.PartialFolded (interfaceParts fragments name))
      (fun _ _ _ _ => hrun) (congrArg Graph.interfaces h.others)
      (congrArg Graph.interfaces h'.others) h.interfaces h'.interfaces
  have hmixins : result.mixins = result'.mixins :=
    eq_of_entries_determined
      (R := fun name => Run Interface.PartialFolded (g.mixinParts fragments name))
      (fun _ _ _ _ => hrun) (congrArg Graph.mixins h.others)
      (congrArg Graph.mixins h'.others) h.mixins h'.mixins
  have hdictionaries : result.dictionaries = result'.dictionaries :=
    eq_of_entries_determined
      (R := fun name => Run Dictionary.PartialFolded (dictionaryParts fragments name))
      (fun _ _ _ _ => Run.unique fun _ _ _ _ h h' => h.unique h')
      (congrArg Graph.dictionaries h.others) (congrArg Graph.dictionaries h'.others)
      h.dictionaries h'.dictionaries
  cases result
  cases result'
  simp only [withoutMembers, Graph.mk.injEq] at hfields
  obtain ⟨hfunctions, hcallbacks, -, henums, -, -, htypedefs, hnamespaces, hextra⟩ := hfields
  simp only at hinterfaces hmixins hdictionaries
  rw [hfunctions, hcallbacks, hdictionaries, henums, hinterfaces, hmixins, htypedefs, hnamespaces,
    hextra]

/-! ## Folds -/

section Folds

variable {options : Options} {state next : Folded}

/-- Folding changes nothing but the members of interfaces, mixins and dictionaries. -/
theorem Graph.withoutMembers_foldPartials {fragments : List Fragment}
    (h : foldPartials options fragments state = .ok next) :
    next.graph.withoutMembers = state.graph.withoutMembers := by
  refine frame_foldPartials_of_entry Graph.withoutMembers ?_ ?_ h
  · intro c g name base addition merged hbase hm
    have hothers := (Interface.foldPartial_eq_ok_iff.1 hm).others
    cases c with
    | interfaces =>
      exact congrArg (fun interfaces => { g.withoutMembers with interfaces })
        (map_entries_modify hbase hothers)
    | mixins =>
      exact congrArg (fun mixins => { g.withoutMembers with mixins })
        (map_entries_modify hbase hothers)
  · intro g name base addition merged hbase hm
    have hothers := (Dictionary.mergeMembers_override_iff.1 hm).others
    exact congrArg (fun dictionaries => { g.withoutMembers with dictionaries })
      (map_entries_modify hbase hothers)

/-- The partial definitions of a list whose target is the entry of a collection with a name. -/
def Graph.partsFor (g : Graph) (c : Collection) (name : String) (targets : List Collection)
    (l : List Interface) : List Interface :=
  l.filter fun part => part.name = name ∧ g.targetOf? name targets = some c

/-- The partial definitions of a fragment whose target is the entry of a collection with a name. -/
def Graph.fragmentParts (g : Graph) (c : Collection) (name : String) (f : Fragment) :
    List Interface :=
  g.partsFor c name partialInterfaceTargets f.partialInterfaces ++
    g.partsFor c name partialMixinTargets f.partialMixins

section Entry

variable {g : Graph} {c : Collection} {name : String} {i : Interface} {collected : List Interface}

/-- An entry collects the partial definitions whose target it is. -/
theorem Graph.HoldsEntry.collect {targets : List Collection} {l : List Interface}
    (hs : g.HoldsEntry c name (fun j => collected.foldlM Interface.foldPartial i = .ok j) state)
    (h : l.foldlM (foldPartialInterface options targets) state = .ok next) :
    g.HoldsEntry c name (fun j => (collected ++ g.partsFor c name targets l).foldlM
      Interface.foldPartial i = .ok j) next := by
  have hfold := foldlM_collects
    (P := fun collected => g.HoldsEntry c name fun j =>
      collected.foldlM Interface.foldPartial i = .ok j)
    (G := fun part => g.partsFor c name targets [part]) ?_ hs h
  · simpa only [partsFor, ← List.filter_flatMap, List.flatMap_singleton'] using hfold
  · intro part s t collected hs ht
    rcases hs.step_cases ht with ⟨hgiven, hnext⟩ | ⟨hmiss, hnext⟩
    · rw [partsFor, List.filter_cons_of_pos (by simpa using hgiven)]
      refine hnext.mono fun merged ⟨base, hbase, hm⟩ => ?_
      rw [List.foldlM_append, hbase]
      exact foldlM_cons_eq_ok_iff.2 ⟨merged, hm, rfl⟩
    · rw [partsFor, List.filter_cons_of_neg (by simpa using hmiss), List.filter_nil,
        List.append_nil]
      exact hnext

theorem Graph.HoldsEntry.collectFragment {f : Fragment}
    (hs : g.HoldsEntry c name (fun j => collected.foldlM Interface.foldPartial i = .ok j) state)
    (h : IdlDecls.foldFragment options state f = .ok next) :
    g.HoldsEntry c name (fun j => (collected ++ g.fragmentParts c name f).foldlM
      Interface.foldPartial i = .ok j) next := by
  simp only [IdlDecls.foldFragment, bind_eq_ok_iff] at h
  obtain ⟨interfaces, hinterfaces, mixins, hmixins, hdictionaries⟩ := h
  have hm := (hs.collect hinterfaces).collect hmixins
  have hentry : ∀ d : Collection, d.get? next.graph name = d.get? mixins.graph name :=
    congrFun (entriesAt_foldPartialDictionaries hdictionaries)
  rw [List.append_assoc] at hm
  obtain ⟨j, hj, hfold⟩ := hm.entry
  exact ⟨⟨j, (hentry c).trans hj, hfold⟩, fun targets =>
    (targetOf?_congr (fun d => by rw [hentry d]) targets).trans (hm.targets targets)⟩

/-- **What becomes of an entry** is what the partial definitions with this target make of it. -/
theorem Graph.entry_foldPartials {fragments : List Fragment}
    (h : foldPartials options fragments state = .ok next)
    (hi : c.get? state.graph name = some i) :
    ∃ j, c.get? next.graph name = some j ∧
      Run Interface.PartialFolded (fragments.flatMap (state.graph.fragmentParts c name)) i j := by
  have hstart : state.graph.HoldsEntry c name
      (fun j => ([] : List Interface).foldlM Interface.foldPartial i = .ok j) state :=
    ⟨⟨i, hi, rfl⟩, fun _ => rfl⟩
  have hend := foldlM_collects
    (P := fun collected => state.graph.HoldsEntry c name fun j =>
      collected.foldlM Interface.foldPartial i = .ok j)
    (fun _ _ _ _ hs ht => hs.collectFragment ht) hstart h
  obtain ⟨j, hj, hfold⟩ := hend.entry
  exact ⟨j, hj, (foldlM_eq_ok_iff_run fun _ _ _ => Interface.foldPartial_eq_ok_iff).1 hfold⟩

end Entry

/-- A fold of partial interfaces changes no dictionary. -/
theorem Graph.dictionaries_foldPartialInterfaces {targets : List Collection} {l : List Interface}
    (h : l.foldlM (foldPartialInterface options targets) state = .ok next) :
    next.graph.dictionaries = state.graph.dictionaries := by
  refine foldlM_keeps (P := fun s => s.graph.dictionaries = state.graph.dictionaries) ?_ rfl h
  intro part _ s t hs ht
  rcases foldPartialInterface_cases ht with ⟨-, hg⟩ | ⟨c, base, merged, -, -, hg⟩
  · rw [hg, hs]
  · rw [hg, ← hs]
    cases c <;> rfl

/-- A dictionary collects the partial dictionaries of its name. -/
theorem Graph.dictionary_foldPartialDictionary {name : String} {d : Dictionary}
    {collected : List Dictionary} {part : Dictionary}
    (hs : ∃ e, state.graph.dictionary? name = some e ∧
      collected.foldlM (Dictionary.mergeMembers .override) d = .ok e)
    (h : foldPartialDictionary options state part = .ok next) :
    ∃ e, next.graph.dictionary? name = some e ∧
      (collected ++ [part].filter (·.name = name)).foldlM (Dictionary.mergeMembers .override) d =
        .ok e := by
  obtain ⟨e, he, hfold⟩ := hs
  by_cases hname : part.name = name
  · subst hname
    rcases foldPartialDictionary_cases h with ⟨hnone, -⟩ | ⟨base, merged, hbase, hm, hg⟩
    · simp [hnone] at he
    · obtain rfl : base = e := Option.some.inj (hbase.symm.trans he)
      refine ⟨merged, ?_, ?_⟩
      · rw [hg, dictionary?, lookup?_map_modify, if_pos rfl, ← dictionary?, hbase, Option.map_some]
      · rw [List.filter_cons_of_pos (by simp), List.foldlM_append, hfold]
        exact foldlM_cons_eq_ok_iff.2 ⟨merged, hm, rfl⟩
  · rw [List.filter_cons_of_neg (by simpa using hname), List.filter_nil, List.append_nil]
    refine ⟨e, ?_, hfold⟩
    rcases foldPartialDictionary_cases h with ⟨-, hg⟩ | ⟨base, merged, -, -, hg⟩
    · rw [hg, he]
    · rw [hg, dictionary?, lookup?_map_modify, if_neg (Ne.symm hname), ← dictionary?, he]

/-- What becomes of a dictionary is what the partial dictionaries of its name make of it. -/
theorem Graph.dictionary_foldPartials {fragments : List Fragment} {name : String} {d : Dictionary}
    (h : foldPartials options fragments state = .ok next)
    (hd : state.graph.dictionary? name = some d) :
    ∃ e, next.graph.dictionary? name = some e ∧
      Run Dictionary.PartialFolded (dictionaryParts fragments name) d e := by
  let P : List Dictionary → Folded → Prop := fun collected s =>
    ∃ e, s.graph.dictionary? name = some e ∧
      collected.foldlM (Dictionary.mergeMembers .override) d = .ok e
  have hfragment : ∀ (f : Fragment) s t collected, P collected s → foldFragment options s f = .ok t →
      P (collected ++ f.partialDictionaries.filter (·.name = name)) t := by
    intro f s t collected hs ht
    simp only [foldFragment, bind_eq_ok_iff] at ht
    obtain ⟨interfaces, hinterfaces, mixins, hmixins, hdictionaries⟩ := ht
    have hkept : mixins.graph.dictionaries = s.graph.dictionaries :=
      (dictionaries_foldPartialInterfaces hmixins).trans
        (dictionaries_foldPartialInterfaces hinterfaces)
    have hmid : P collected mixins := by
      simp only [P, dictionary?, hkept]
      exact hs
    have hend := foldlM_collects (P := P) (G := fun part => [part].filter (·.name = name))
      (fun _ _ _ _ hs ht => dictionary_foldPartialDictionary hs ht) hmid hdictionaries
    simpa only [← List.filter_flatMap, List.flatMap_singleton'] using hend
  have hstart : P [] state := ⟨d, hd, rfl⟩
  obtain ⟨e, he, hfold⟩ := foldlM_collects hfragment hstart h
  rw [List.nil_append, ← List.filter_flatMap] at hfold
  exact ⟨e, he, (foldlM_eq_ok_iff_run fun _ _ _ => Dictionary.mergeMembers_override_iff).1 hfold⟩

end Folds

/-! ## The parts of an entry -/

section Parts

variable {g : Graph} {name : String} {i : Interface}

theorem Graph.flatMap_fragmentParts_interfaces (hi : g.interface? name = some i)
    (fragments : List Fragment) :
    fragments.flatMap (g.fragmentParts .interfaces name) = interfaceParts fragments name := by
  rw [interfaceParts, List.filter_flatMap]
  congr 1
  funext f
  have hinterfaces : g.targetOf? name partialInterfaceTargets = some .interfaces := by
    simp [targetOf?, partialInterfaceTargets, locate?, Collection.get?, hi]
  have hmixins : g.targetOf? name partialMixinTargets ≠ some .interfaces := by
    rw [targetOf?, partialMixinTargets, locate?, locate?]
    cases Collection.mixins.get? g name <;> simp
  simp [fragmentParts, partsFor, hinterfaces, hmixins]

theorem Graph.flatMap_fragmentParts_mixins (hi : g.mixin? name = some i)
    (fragments : List Fragment) :
    fragments.flatMap (g.fragmentParts .mixins name) = g.mixinParts fragments name := by
  rw [mixinParts]
  congr 1
  funext f
  have hmixins : g.targetOf? name partialMixinTargets = some .mixins := by
    simp [targetOf?, partialMixinTargets, locate?, Collection.get?, hi]
  cases hinterface : g.interface? name with
  | none =>
    have hinterfaces : g.targetOf? name partialInterfaceTargets = some .mixins := by
      simp [targetOf?, partialInterfaceTargets, locate?, Collection.get?, hi, hinterface]
    simp [fragmentParts, partsFor, hinterfaces, hmixins]
  | some j =>
    have hinterfaces : g.targetOf? name partialInterfaceTargets = some .interfaces := by
      simp [targetOf?, partialInterfaceTargets, locate?, Collection.get?, hinterface]
    simp [fragmentParts, partsFor, hinterfaces, hmixins]

/-- Without partial mixins of a name a mixin that stands in for an interface gets what the interface
would get. -/
theorem Graph.mixinParts_eq_interfaceParts (hnone : g.interface? name = none)
    {fragments : List Fragment} (hf : ∀ f ∈ fragments, ∀ part ∈ f.partialMixins, part.name ≠ name) :
    g.mixinParts fragments name = interfaceParts fragments name := by
  rw [mixinParts, interfaceParts, List.filter_flatMap, List.flatMap_congr]
  intro f hmem
  have hmixins : f.partialMixins.filter (·.name = name) = [] := by
    simpa [List.filter_eq_nil_iff] using hf f hmem
  simp [hnone, hmixins]

end Parts

/-! ## Locality -/

theorem Graph.foldedInto_of_foldPartials {options : Options} {fragments : List Fragment}
    {state next : Folded} (h : foldPartials options fragments state = .ok next) :
    state.graph.FoldedInto fragments next.graph where
  others := Graph.withoutMembers_foldPartials h
  interfaces name i hi := by
    rw [← Graph.flatMap_fragmentParts_interfaces hi fragments]
    exact Graph.entry_foldPartials (c := .interfaces) h hi
  mixins name i hi := by
    rw [← Graph.flatMap_fragmentParts_mixins hi fragments]
    exact Graph.entry_foldPartials (c := .mixins) h hi
  dictionaries _ _ hd := Graph.dictionary_foldPartials h hd

/-- No collection gains or loses a definition when partial ones are folded. -/
theorem Graph.identities_foldPartials {options : Options} {fragments : List Fragment}
    {state next : Folded} (h : foldPartials options fragments state = .ok next) :
    next.graph.identities = state.graph.identities := by
  rw [← Graph.identities_withoutMembers, Graph.withoutMembers_foldPartials h,
    Graph.identities_withoutMembers]

/-- **Folding is local to each target.** A lenient fold always ends, in the one graph that
`Graph.FoldedInto` describes: all definitions are still there, only members have changed, and each
entry comes out of the partial definitions of its own name. An entry ends the same when it is found as
an interface and when it is the mixin that stands in for one. -/
theorem foldPartials_local (fragments : List Fragment) (state : Folded) :
    ∃ next, foldPartials .lenient fragments state = .ok next ∧
      (∀ result, state.graph.FoldedInto fragments result ↔ result = next.graph) ∧
      next.graph.identities = state.graph.identities ∧
      ∀ (other : Folded) (name : String) (i : Interface), state.graph.interface? name = some i →
        other.graph.interface? name = none → other.graph.mixin? name = some i →
        (∀ f ∈ fragments, ∀ part ∈ f.partialMixins, part.name ≠ name) →
        ∃ next', foldPartials .lenient fragments other = .ok next' ∧
          next'.graph.mixin? name = next.graph.interface? name := by
  have hends : ∀ state, ∃ next, foldPartials .lenient fragments state = .ok next := fun state => by
    obtain ⟨next, hnext, -⟩ := (Seeks.foldlM seeks_foldFragment fragments).lenient state
    exact ⟨next, hnext⟩
  obtain ⟨next, hnext⟩ := hends state
  have hfolded := Graph.foldedInto_of_foldPartials hnext
  refine ⟨next, hnext, fun result => ⟨fun h => h.unique hfolded, ?_⟩,
    Graph.identities_foldPartials hnext, ?_⟩
  · rintro rfl
    exact hfolded
  · intro other name i hi hnone hmixin hparts
    obtain ⟨next', hnext'⟩ := hends other
    refine ⟨next', hnext', ?_⟩
    obtain ⟨j, hj, hrun⟩ := hfolded.interfaces name i hi
    obtain ⟨k, hk, hrun'⟩ := (Graph.foldedInto_of_foldPartials hnext').mixins name i hmixin
    rw [Graph.mixinParts_eq_interfaceParts hnone hparts] at hrun'
    rw [hj, hk, Run.unique (fun _ _ _ _ h h' => h.unique h') hrun hrun']

/-- A wharf. -/
def wharf : Interface where
  name := "Wharf"
  methods := some (.ofList [("moor", { name := "moor" })])
  exposed := some (.ofList ["Harbor"])

/-- A graph in which the wharf is an interface. -/
def wharfGraph : Graph where
  interfaces := some (.ofList [("Wharf", wharf)])
  dictionaries := some (.ofList [("Berth", { name := "Berth" })])

/-- A graph in which the wharf is a mixin. -/
def wharfMixinGraph : Graph where
  mixins := some (.ofList [("Wharf", wharf)])

/-- Two fragments with partial definitions of the wharf, and of others between them. -/
def wharfFragments : List Fragment := [
  { partialInterfaces := [
      { name := "Wharf", properties := some (.ofList [("depth", { name := "depth" })]) },
      { name := "Quay" }]
    partialDictionaries := [{ name := "Berth" }] },
  { partialInterfaces := [
      { name := "Wharf", exposed := some (.ofList ["Dock"]),
        properties := some (.ofList [("depth", { name := "depth", readOnly := some true })]) }] }]

/-- The wharf gets the same properties as an interface and as a mixin. -/
theorem wharfGraph_foldPartials :
    ∃ next, foldPartials .lenient wharfFragments ⟨wharfGraph, {}⟩ = .ok next ∧
      wharfGraph.FoldedInto wharfFragments next.graph ∧
      (next.graph.interface? "Wharf").any (·.hasMember "depth" .property) = true ∧
      ∃ next', foldPartials .lenient wharfFragments ⟨wharfMixinGraph, {}⟩ = .ok next' ∧
        next'.graph.mixin? "Wharf" = next.graph.interface? "Wharf" := by
  have hdepth : (match foldPartials .lenient wharfFragments ⟨wharfGraph, {}⟩ with
      | .ok next => (next.graph.interface? "Wharf").any (·.hasMember "depth" .property)
      | .error _ => false) = true := by decide +kernel
  obtain ⟨next, hnext, hfolded, -, hfallback⟩ := foldPartials_local wharfFragments ⟨wharfGraph, {}⟩
  rw [hnext] at hdepth
  have hmixin := hfallback ⟨wharfMixinGraph, {}⟩ "Wharf" wharf (by decide +kernel) (by decide +kernel)
    (by decide +kernel) (by decide +kernel)
  exact ⟨next, hnext, (hfolded next.graph).2 rfl, hdepth, hmixin⟩

end IdlDecls
