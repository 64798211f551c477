import IdlDecls.Declarations.Emit
import IdlDecls.Proofs.Integration.Keys
import IdlDecls.Proofs.View.Hidden

/-!
# What cannot be written

A declaration file cannot be written of a definition without a name. Entries that stand under a key have
the key for a name where they bring none of their own, so after a run on data files whose keys are not
empty every such entry is named, in the result and in each of its views. Namespaces and type definitions
stand under no keys: an empty name stays, and pruning can bring one. So the iteration methods of the
result can always be written, and a view can be written unless one of its namespaces or type definitions
has no name (`integrate_emits`).
-/

namespace IdlDecls

/-! ## Parts -/

section Parts

variable {α : Type}

theorem declarationsOf_cons (declare : α → Except EmitError (List Declaration)) (part : α)
    (rest : List α) : declarationsOf declare (part :: rest) = (do
      let first ← declare part
      let others ← declarationsOf declare rest
      pure (first ++ others)) := by
  rw [declarationsOf, declarationsOf, List.mapM_cons]
  cases declare part with
  | error e => rfl
  | ok first => cases rest.mapM declare <;> rfl

/-- Parts that can be written each can be written together. -/
theorem declarationsOf_total {declare : α → Except EmitError (List Declaration)} :
    ∀ {parts : List α}, (∀ part ∈ parts, ∃ written, declare part = .ok written) →
      ∃ written, declarationsOf declare parts = .ok written
  | [], _ => ⟨[], rfl⟩
  | part :: rest, h => by
    obtain ⟨first, hfirst⟩ := h part (List.mem_cons_self ..)
    obtain ⟨others, hothers⟩ := declarationsOf_total fun other hother =>
      h other (List.mem_cons_of_mem _ hother)
    exact ⟨first ++ others, by rw [declarationsOf_cons, hfirst, hothers]; rfl⟩

/-- **Parts under names** can be written exactly if each of them has one. -/
theorem declarationsOf_named (kind : Kind) (name : α → String) (declare : α → List Declaration)
    (parts : List α) : declarationsOf (fun part => named kind (name part) (declare part)) parts =
      if ∃ part ∈ parts, name part = "" then .error (.unnamed kind)
      else .ok (parts.flatMap declare) := by
  induction parts with
  | nil => rfl
  | cons part rest ih =>
    rw [declarationsOf_cons, ih, named]
    by_cases hname : name part = ""
    · have hunnamed : ∃ other ∈ part :: rest, name other = "" := ⟨part, by simp, hname⟩
      rw [if_pos hname, if_pos hunnamed]
      rfl
    · rw [if_neg hname]
      simp only [List.exists_mem_cons_iff, hname, false_or]
      split <;> rfl

end Parts

/-! ## Graphs whose entries are named -/

/-- Every definition that stands under a key has a name. -/
structure Graph.EntriesNamed (g : Graph) : Prop where
  callbackFunctions : ∀ f ∈ valuesOf g.callbackFunctions, f.name ≠ ""
  callbackInterfaces : ∀ i ∈ valuesOf g.callbackInterfaces, i.name ≠ ""
  dictionaries : ∀ d ∈ valuesOf g.dictionaries, d.name ≠ ""
  enums : ∀ e ∈ valuesOf g.enums, e.name ≠ ""
  interfaces : ∀ i ∈ valuesOf g.interfaces, i.name ≠ ""
  mixins : ∀ m ∈ valuesOf g.mixins, m.name ≠ ""

/-- Names that are filled in from keys that are not empty are not empty. -/
theorem Graph.Follows.entriesNamed {g : Graph} (hg : g.Follows .filled)
    (hkeys : g.KeysIn fun _ key => key ≠ "") : g.EntriesNamed := by
  have hvalues : ∀ {α : Type} {name : α → String} {c : Option (Keyed α)},
      EachEntry (fun key value => NameFilled key (name value)) c →
      (∀ key ∈ keysOf c, key ≠ "") → ∀ value ∈ valuesOf c, name value ≠ "" := by
    intro α name c hfilled hc value hvalue hempty
    obtain ⟨key, hkey⟩ := mem_valuesOf.1 hvalue
    refine hc key (mem_keysOf.2 (by rw [hkey]; rfl)) ?_
    have hname : nameOr key (name value) = name value := hfilled key value hkey
    rwa [hempty, nameOr, if_pos rfl] at hname
  exact
    { callbackFunctions := hvalues (hg.callbackFunctions.mono fun _ _ hf => hf.name)
        (hkeys .callbackFunctions rfl)
      callbackInterfaces := hvalues (hg.callbackInterfaces.mono fun _ _ hi => hi.name)
        (hkeys .callbackInterfaces rfl)
      dictionaries := hvalues (hg.dictionaries.mono fun _ _ hd => hd.name)
        (hkeys .dictionaries rfl)
      enums := hvalues (hg.enums.mono fun _ _ he => he.name) (hkeys .enums rfl)
      interfaces := hvalues (hg.interfaces.mono fun _ _ hi => hi.name) (hkeys .interfaces rfl)
      mixins := hvalues (hg.mixins.mono fun _ _ hm => hm.name) (hkeys .mixins rfl) }

/-- The iteration methods of named interfaces and mixins can be written. -/
theorem Graph.EntriesNamed.emit_iterators {g : Graph} (hg : g.EntriesNamed) :
    ∃ text, emit g .iterators = .ok text := by
  have hparts : ∀ i ∈ valuesOf g.interfaces ++ valuesOf g.mixins,
      ∃ written, i.iteratorDeclarations = .ok written := by
    intro i hi
    have hname : i.name ≠ "" := (List.mem_append.1 hi).elim (hg.interfaces i) (hg.mixins i)
    rw [Interface.iteratorDeclarations]
    cases i.iterator with
    | none => exact ⟨[], rfl⟩
    | some d => exact ⟨_, if_neg hname⟩
  obtain ⟨written, hwritten⟩ := declarationsOf_total hparts
  refine ⟨Flavor.banner .iterators ++ String.join (written.map Declaration.text), ?_⟩
  rw [emit, declarationsFor, iteratorDeclarations, hwritten]
  rfl

/-- **Why a graph with named entries cannot be written**: a namespace has no name, or a type definition
has none. Namespaces are written before type definitions. -/
theorem Graph.EntriesNamed.declarations_eq_error_iff {g : Graph} (hg : g.EntriesNamed)
    {e : EmitError} : g.declarations = .error e ↔
      ((∃ n ∈ g.namespaces.getD [], n.name = "") ∨ ∃ t ∈ g.typedefs.getD [], t.name = "") ∧
        e = .unnamed (if ∃ n ∈ g.namespaces.getD [], n.name = "" then .nameSpace else .typedef) := by
  have hnone : ∀ {α : Type} {name : α → String} {parts : List α},
      (∀ part ∈ parts, name part ≠ "") → ¬ ∃ part ∈ parts, name part = "" :=
    fun h ⟨part, hpart, hname⟩ => h part hpart hname
  simp only [declarations, declarationsOf_named, if_neg (hnone hg.dictionaries),
    if_neg (hnone hg.mixins), if_neg (hnone hg.interfaces), if_neg (hnone hg.callbackInterfaces),
    if_neg (hnone hg.callbackFunctions), if_neg (hnone hg.enums)]
  by_cases hnamespaces : ∃ n ∈ g.namespaces.getD [], n.name = ""
  · rw [if_pos hnamespaces, if_pos hnamespaces, and_iff_right (Or.inl hnamespaces)]
    change Except.error (.unnamed .nameSpace) = Except.error e ↔ _
    rw [Except.error.injEq, eq_comm]
  · rw [if_neg hnamespaces, if_neg hnamespaces, or_iff_right hnamespaces]
    by_cases htypedefs : ∃ t ∈ g.typedefs.getD [], t.name = ""
    · rw [if_pos htypedefs, and_iff_right htypedefs]
      change Except.error (.unnamed .typedef) = Except.error e ↔ _
      rw [Except.error.injEq, eq_comm]
    · rw [if_neg htypedefs, iff_false_right fun h => htypedefs h.1]
      nofun

theorem Graph.declarationsFor_of_ne {g : Graph} {flavor : Flavor} (h : flavor ≠ .iterators) :
    g.declarationsFor flavor = g.declarations := by
  cases flavor with
  | web | worker => rfl
  | iterators => exact absurd rfl h

/-- The files for windows and workers fail as their declarations do. -/
theorem emit_eq_error_iff {g : Graph} {flavor : Flavor} (h : flavor ≠ .iterators) {e : EmitError} :
    emit g flavor = .error e ↔ g.declarations = .error e := by
  rw [emit, Graph.declarationsFor_of_ne h]
  cases g.declarations <;> simp [Except.map]

/-! ## Views -/

/-- Views take over names. -/
theorem Graph.EntriesNamed.viewParts {g : Graph} (hg : g.EntriesNamed) (context : String)
    (known : List String) : (g.viewParts context known).EntriesNamed := by
  have hkept : ∀ {α : Type} {name : α → String} {c : Option (Keyed α)},
      (∀ value ∈ valuesOf c, name value ≠ "") →
      ∀ value ∈ valuesOf (keepReached (g.reachedNames context known) c), name value ≠ "" := by
    intro α name c hc value hvalue
    obtain ⟨key, hkey⟩ := mem_valuesOf.1 hvalue
    exact hc value (mem_valuesOf.2 ⟨key, (lookup?_keepReached.1 hkey).1⟩)
  exact
    { callbackFunctions := hkept hg.callbackFunctions
      callbackInterfaces := hkept hg.callbackInterfaces
      dictionaries := hkept hg.dictionaries
      enums := hkept hg.enums
      interfaces := by
        intro j hj
        obtain ⟨key, hj⟩ := mem_valuesOf.1 hj
        obtain ⟨i, hi, hselected⟩ := exists_of_interface?_viewParts hj
        rw [name_of_selectInterface? hselected]
        exact hg.interfaces i hi
      mixins := by
        intro m hm
        obtain ⟨key, hm⟩ := mem_valuesOf.1 hm
        obtain ⟨whole, hwhole, rfl⟩ := exists_of_mixin?_viewParts hm
        exact hg.mixins whole hwhole }

/-! ## Runs -/

/-- A graph of a data file, in which nothing stands under the empty key. -/
structure Graph.OfKeyedFile (g : Graph) : Prop where
  read : ∃ j, Graph.ofJson j = .ok g
  keys : ∀ kind : DefinitionKind, kind.isKeyed = true → "" ∉ g.identities kind

/-- A fragment of a data file, in whose definitions nothing stands under the empty key. -/
structure Fragment.OfKeyedFile (f : Fragment) : Prop where
  read : ∃ j, Fragment.ofJson j = .ok f
  keys : ∀ kind : DefinitionKind, kind.isKeyed = true → "" ∉ f.definitions.identities kind

theorem Graph.OfKeyedFile.follows {g : Graph} (h : g.OfKeyedFile) : g.Follows .filled := by
  obtain ⟨j, hj⟩ := h.read
  exact Graph.follows_of_ofJson hj

theorem Fragment.OfKeyedFile.follows {f : Fragment} (h : f.OfKeyedFile) : f.Follows .filled := by
  obtain ⟨j, hj⟩ := h.read
  exact Fragment.follows_of_ofJson hj

theorem Graph.keysIn_of_not_mem {g : Graph}
    (h : ∀ kind : DefinitionKind, kind.isKeyed = true → "" ∉ g.identities kind) :
    g.KeysIn fun _ key => key ≠ "" := by
  rintro kind hkind _ hkey rfl
  exact h kind hkind hkey

section Runs

variable {options : Options} {baseline : Graph} {fragments : List Fragment}
  {corrections : Corrections} (hb : baseline.OfKeyedFile) (hf : ∀ f ∈ fragments, f.OfKeyedFile)
  (ha : corrections.additions.OfKeyedFile) (ho : corrections.overrides.OfKeyedFile)
  (hc : corrections.comments.OfKeyedFile)
include hb hf ha ho hc

/-- A run on such data files leaves no entry without a name. -/
theorem Phases.entriesNamed_result (p : Phases options baseline fragments corrections) :
    p.result.EntriesNamed := by
  have hfollows := fun f hmem => (hf f hmem).follows
  have hincluded := p.follows_included hb.follows hfollows
  refine (p.follows_result hb.follows hfollows ⟨ha.follows, ho.follows, hc.follows⟩).entriesNamed ?_
  exact p.keysIn_result (Graph.follows_iff.1 hincluded).1 (Graph.keysIn_of_not_mem hb.keys)
    (fun f hmem => Graph.keysIn_of_not_mem (hf f hmem).keys)
    ⟨Graph.keysIn_of_not_mem ha.keys, Graph.keysIn_of_not_mem ho.keys,
      Graph.keysIn_of_not_mem hc.keys⟩

/-- **After a run on data files only a namespace or a type definition without a name cannot be written.**
If nothing in the files stands under the empty key, the iteration methods of the result can be written;
and the view of a context that is not blank can be written for windows and for workers unless it has a
namespace or a type definition with the empty name, whatever the removal template takes away. -/
theorem integrate_emits {g : Graph} {report : Report}
    (h : integrate options baseline fragments corrections = .ok (g, report)) :
    (∃ text, emit g .iterators = .ok text) ∧
    ∀ (context : String) (known : List String), Text.blank context = false →
      ∃ v, g.view context known = .ok v ∧
        ∀ flavor ∈ [Flavor.web, .worker], ∀ e, emit v flavor = .error e ↔
          ((∃ n ∈ v.namespaces.getD [], n.name = "") ∨ ∃ t ∈ v.typedefs.getD [], t.name = "") ∧
            e = .unnamed
              (if ∃ n ∈ v.namespaces.getD [], n.name = "" then .nameSpace else .typedef) := by
  obtain ⟨p, rfl, -⟩ := integrate_phases h
  have hnamed := p.entriesNamed_result hb hf ha ho hc
  refine ⟨hnamed.emit_iterators, fun context known hcontext => ?_⟩
  refine ⟨_, Graph.view_eq_ok p.result known hcontext, fun flavor hflavor e => ?_⟩
  have hdeclarations : flavor ≠ .iterators := by
    rintro rfl
    exact absurd hflavor (by decide)
  rw [emit_eq_error_iff hdeclarations, (hnamed.viewParts context known).declarations_eq_error_iff]

end Runs

/-- A data file with an interface whose name is its key, and with a namespace without a name. -/
def beaconJson : Json :=
  .obj [
    ("interfaces", .obj [("interface", .obj [("Beacon", .obj [("exposed", .str "Window")])])]),
    ("namespaces", .arr [.obj [("exposed", .str "Window")]])]

/-- The graph of this data file. -/
def beaconGraph : Graph where
  interfaces := some (.ofList [("Beacon", { name := "Beacon", exposed := some (.ofText "Window") })])
  namespaces := some [{ exposed := some (.ofText "Window") }]

/-- What a window sees of this file cannot be written, because the namespace has no name. -/
theorem beaconGraph_emits :
    beaconGraph.OfKeyedFile ∧ (∅ : Graph).OfKeyedFile ∧
      integrate {} beaconGraph [] {} = .ok (beaconGraph, {}) ∧
      (∃ text, emit beaconGraph .iterators = .ok text) ∧
      ∃ v, beaconGraph.view "Window" [] = .ok v ∧
        emit v .web = .error (.unnamed .nameSpace) := by
  have hgraph : beaconGraph.OfKeyedFile :=
    ⟨⟨beaconJson, by decide +kernel⟩, fun kind _ => by cases kind <;> decide +kernel⟩
  have hempty : (∅ : Graph).OfKeyedFile :=
    ⟨⟨.obj [], rfl⟩, fun kind _ => by cases kind <;> decide +kernel⟩
  have hrun : integrate {} beaconGraph [] {} = .ok (beaconGraph, {}) := by decide +kernel
  obtain ⟨hiterators, hviews⟩ := integrate_emits hgraph (by simp) hempty hempty hempty hrun
  have hcontext : Text.blank "Window" = false := by decide +kernel
  obtain ⟨v, hv, hemit⟩ := hviews "Window" [] hcontext
  refine ⟨hgraph, hempty, hrun, hiterators, v, hv, (hemit .web (by simp) _).2 ?_⟩
  rw [Graph.view_eq_ok _ _ hcontext] at hv
  cases hv
  have hunnamed : ∃ n ∈ (beaconGraph.viewParts "Window" []).namespaces.getD [], n.name = "" := by
    rw [Graph.namespaces_viewParts]
    decide +kernel
  exact ⟨Or.inl hunnamed, by rw [if_pos hunnamed]⟩

end IdlDecls
