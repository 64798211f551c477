import IdlDecls.Proofs.Integration.Included
import IdlDecls.Proofs.Integration.Strict
import Mathlib.Algebra.Ring.Nat

/-!
# Lenient folds

A fold that leaves out what it does not find never fails: overriding members cannot conflict
(`Interface.mergeMembers_override_total`), and the check of the exposure that a partial interface
receives refuses nothing (`Interface.exposeFor_eq`). Every reference is counted once, as folded or as
skipped, and which of the two is settled by the graph before the first step (`Counted`). Folding
includes statements is a change of the lists of mixins that can be said in one expression
(`Graph.includingAll`).
-/

namespace IdlDecls

/-! ## Partial definitions are counted once -/

/-- A report with more partial definitions folded and skipped. -/
def Report.countPartials (r : Report) (folded skipped : Nat) : Report :=
  { r with
    partialsFolded := r.partialsFolded + folded
    partialsSkipped := r.partialsSkipped + skipped }

/-- A report with more includes statements folded and skipped. -/
def Report.countIncludes (r : Report) (folded skipped : Nat) : Report :=
  { r with
    includesFolded := r.includesFolded + folded
    includesSkipped := r.includesSkipped + skipped }

/-- A fold that began with the graph `g` and the report `r` has looked for some targets: it has counted
those that `g` has as folded and the others as skipped, and it has moved no target. -/
structure Counted (g : Graph) (r : Report) (sought : List Target) (state : Folded) : Prop where
  report : state.report =
    r.countPartials (sought.countP (·.isIn g)) (sought.countP (!·.isIn g))
  targets : ∀ t : Target, t.isIn state.graph = t.isIn g

theorem Counted.start (state : Folded) : Counted state.graph state.report [] state :=
  ⟨rfl, fun _ => rfl⟩

section Steps

variable {g : Graph} {r : Report} {sought : List Target} {options : Options} {state next : Folded}

/-- One more target has been looked for. -/
theorem Counted.snoc {t : Target} (hs : Counted g r sought state)
    (hreport : next.report = state.report.countPartials (if t.isIn state.graph then 1 else 0)
      (if t.isIn state.graph then 0 else 1))
    (htargets : ∀ u : Target, u.isIn next.graph = u.isIn state.graph) :
    Counted g r (sought ++ [t]) next where
  report := by
    rw [hreport, hs.report, hs.targets, List.countP_append, List.countP_append,
      List.countP_singleton, List.countP_singleton]
    cases t.isIn g <;> rfl
  targets u := (htargets u).trans (hs.targets u)

/-- A target that is missing is counted as skipped, if the fold goes on at all. -/
theorem Folded.report_of_missing {kind : Reference} {name : String} {skipped : Report}
    (h : state.missing options kind name skipped = .ok next) : next.report = skipped := by
  rw [Folded.missing] at h
  cases hu : options.unresolved with
  | skip => rw [hu] at h; cases h; rfl
  | fail => rw [hu] at h; cases h

theorem Counted.foldPartialInterface {places : List Collection} {addition : Interface}
    (hs : Counted g r sought state)
    (h : foldPartialInterface options places state addition = .ok next) :
    Counted g r (sought ++ [.partialInterface places addition.name]) next := by
  have hin : (Target.partialInterface places addition.name).isIn state.graph =
      (state.graph.locate? addition.name places).isSome := (Graph.isSome_locate? ..).symm
  rw [IdlDecls.foldPartialInterface] at h
  cases hl : state.graph.locate? addition.name places with
  | none =>
    simp only [hl] at h
    refine hs.snoc ?_ fun u => by rw [Folded.graph_of_missing h]
    rw [Folded.report_of_missing h, hin, hl]
    rfl
  | some found =>
    obtain ⟨c, base⟩ := found
    simp only [hl] at h
    cases hm : base.foldPartial addition with
    | error e => simp [hm] at h
    | ok merged =>
      simp only [hm] at h
      cases h
      refine hs.snoc ?_ fun u => Target.isIn_replace ..
      rw [hin, hl]
      rfl

theorem Counted.foldPartialDictionary {addition : Dictionary} (hs : Counted g r sought state)
    (h : foldPartialDictionary options state addition = .ok next) :
    Counted g r (sought ++ [.partialDictionary addition.name]) next := by
  rw [IdlDecls.foldPartialDictionary] at h
  cases hd : state.graph.dictionary? addition.name with
  | none =>
    simp only [hd] at h
    refine hs.snoc ?_ fun u => by rw [Folded.graph_of_missing h]
    rw [Folded.report_of_missing h, Target.isIn, hd]
    rfl
  | some base =>
    simp only [hd] at h
    cases hm : base.mergeMembers .override addition with
    | error e => simp [hm] at h
    | ok merged =>
      simp only [hm] at h
      cases h
      refine hs.snoc ?_ fun u => Target.isIn_modify_dictionary ..
      rw [Target.isIn, hd]
      rfl

end Steps

section Runs

variable {g : Graph} {r : Report} {sought : List Target} {options : Options} {state next : Folded}

theorem Counted.foldFragment {f : Fragment} (hs : Counted g r sought state)
    (h : foldFragment options state f = .ok next) :
    Counted g r (sought ++ f.partialTargets) next := by
  simp only [IdlDecls.foldFragment, bind_eq_ok_iff] at h
  obtain ⟨afterInterfaces, hi, afterMixins, hm, hd⟩ := h
  have hinterfaces := foldlM_collects (P := Counted g r)
    (fun _ _ _ _ hs ht => Counted.foldPartialInterface hs ht) hs hi
  have hmixins := foldlM_collects (P := Counted g r)
    (fun _ _ _ _ hs ht => Counted.foldPartialInterface hs ht) hinterfaces hm
  have hdictionaries := foldlM_collects (P := Counted g r)
    (fun _ _ _ _ hs ht => Counted.foldPartialDictionary hs ht) hmixins hd
  simpa only [Fragment.partialTargets, List.map_eq_flatMap, List.append_assoc] using hdictionaries

/-- **The count of a fold**: every partial definition of every fragment is counted once, as folded if
the graph before the fold has its target. -/
theorem Counted.foldPartials {fragments : List Fragment}
    (h : foldPartials options fragments state = .ok next) :
    Counted state.graph state.report (fragments.flatMap Fragment.partialTargets) next := by
  simpa using foldlM_collects (P := Counted state.graph state.report)
    (fun _ _ _ _ hs ht => Counted.foldFragment hs ht) (Counted.start state) h

end Runs

/-! ## Includes -/

/-- An interface that includes more mixins behind those of its list. -/
def Interface.includingAll (i : Interface) (mixins : List String) : Interface :=
  { i with
    implements := if mixins = [] then i.implements else some (i.implements.getD [] ++ mixins) }

@[simp] theorem Interface.includingAll_nil (i : Interface) : i.includingAll [] = i := rfl

theorem Interface.includingAll_singleton (i : Interface) (mixin : String) :
    i.includingAll [mixin] = i.including mixin := rfl

theorem Interface.includingAll_append (i : Interface) (l m : List String) :
    i.includingAll (l ++ m) = (i.includingAll l).includingAll m := by
  cases l with
  | nil => rfl
  | cons a l =>
    cases m with
    | nil => simp [includingAll]
    | cons b m => simp [includingAll]

theorem includedIn_append (l m : List Include) (name : String) :
    includedIn (l ++ m) name = includedIn l name ++ includedIn m name := by
  simp [includedIn]

/-- A graph whose interfaces include what some statements have them include. -/
def Graph.includingAll (g : Graph) (statements : List Include) : Graph :=
  { g with
    interfaces := g.interfaces.map
      (·.map fun name i => i.includingAll (includedIn statements name)) }

namespace Graph

theorem includingAll_interface? (g : Graph) (statements : List Include) (name : String) :
    (g.includingAll statements).interface? name =
      (g.interface? name).map (·.includingAll (includedIn statements name)) :=
  lookup?_map_entries (fun name (i : Interface) => i.includingAll (includedIn statements name))
    g.interfaces name

/-- A graph is changed by changes of its interfaces as the changes of each of them say. -/
theorem includingAll_eq_of_interface? {g h : Graph} {statements : List Include}
    (hrest : { g with interfaces := h.interfaces } = h)
    (hsome : g.interfaces.isSome = h.interfaces.isSome)
    (hinterface : ∀ name, h.interface? name =
      (g.interface? name).map (·.includingAll (includedIn statements name))) :
    g.includingAll statements = h := by
  rw [← hrest, includingAll]
  refine congrArg (fun interfaces => { g with interfaces }) (eq_of_lookup? ?_ fun name => ?_)
  · rw [Option.isSome_map, hsome]
  · exact (includingAll_interface? g statements name).trans (hinterface name).symm

@[simp] theorem includingAll_nil (g : Graph) : g.includingAll [] = g :=
  includingAll_eq_of_interface? rfl rfl fun name => by simp [includedIn]

theorem includingAll_append (g : Graph) (l m : List Include) :
    g.includingAll (l ++ m) = (g.includingAll l).includingAll m := by
  refine includingAll_eq_of_interface? rfl (by simp [includingAll]) fun name => ?_
  simp only [includingAll_interface?, Option.map_map, Function.comp_def, includedIn_append,
    Interface.includingAll_append]

/-- A statement about an interface that is not there changes nothing. -/
theorem includingAll_of_missing {g : Graph} {statement : Include}
    (h : g.interface? statement.target = none) : g.includingAll [statement] = g := by
  refine includingAll_eq_of_interface? rfl rfl fun name => ?_
  by_cases htarget : statement.target = name
  · rw [← htarget, h, Option.map_none]
  · simp [includedIn, htarget]

/-- A statement about an interface that is there adds its mixin to it. -/
theorem includingAll_of_found {g : Graph} {statement : Include} {i : Interface}
    (h : g.interface? statement.target = some i) :
    g.includingAll [statement] =
      Collection.interfaces.replace g statement.target (i.including statement.includes) := by
  refine includingAll_eq_of_interface? rfl (by simp [Collection.replace]) fun name => ?_
  have hreplace := Collection.get?_replace .interfaces .interfaces g statement.target name
    (i.including statement.includes)
  rw [Collection.get?, Collection.get?] at hreplace
  rw [hreplace]
  by_cases htarget : name = statement.target
  · subst htarget
    simp [h, includedIn, Interface.includingAll_singleton]
  · simp [includedIn, htarget, Ne.symm htarget]

end Graph

/-- The statements of a list that a graph has the interface of. -/
def Graph.foundIncludes (g : Graph) (statements : List Include) : Nat :=
  statements.countP fun statement => (g.interface? statement.target).isSome

/-- The statements of a list that a graph does not have the interface of. -/
def Graph.missingIncludes (g : Graph) (statements : List Include) : Nat :=
  statements.countP fun statement => !(g.interface? statement.target).isSome

/-- **One statement.** -/
theorem foldInclude_lenient (state : Folded) (statement : Include) :
    foldInclude .lenient state statement =
      .ok ⟨state.graph.includingAll [statement],
        state.report.countIncludes (state.graph.foundIncludes [statement])
          (state.graph.missingIncludes [statement])⟩ := by
  rw [foldInclude]
  cases hi : state.graph.interface? statement.target with
  | none =>
    rw [Graph.includingAll_of_missing hi]
    simp [Folded.missing, Options.lenient, Graph.foundIncludes, Graph.missingIncludes, hi,
      Report.countIncludes]
  | some i =>
    rw [Graph.includingAll_of_found hi]
    simp [Graph.foundIncludes, Graph.missingIncludes, hi, Report.countIncludes]

/-- **All statements.** Including mixins adds and removes no interface, so the graph before the first
statement says which statements have their interface. -/
theorem foldlM_foldInclude_lenient : ∀ (statements : List Include) (state : Folded),
    statements.foldlM (foldInclude .lenient) state =
      .ok ⟨state.graph.includingAll statements,
        state.report.countIncludes (state.graph.foundIncludes statements)
          (state.graph.missingIncludes statements)⟩
  | [], state => by
    rw [Graph.includingAll_nil]
    rfl
  | statement :: rest, state => by
    have hpresent : ∀ name, ((state.graph.includingAll [statement]).interface? name).isSome =
        (state.graph.interface? name).isSome := fun name => by
      rw [Graph.includingAll_interface?, Option.isSome_map]
    rw [foldlM_cons_eq_ok_iff]
    refine ⟨_, foldInclude_lenient state statement, ?_⟩
    rw [foldlM_foldInclude_lenient rest, ← Graph.includingAll_append]
    simp only [List.singleton_append, Graph.foundIncludes, Graph.missingIncludes, hpresent,
      Report.countIncludes, List.countP_cons, List.countP_nil, Nat.add_assoc, Nat.zero_add,
      Nat.add_comm]

/-! ## Whole folds -/

/-- What satisfies a test and what does not make up a list. -/
theorem countP_add_countP_not {α : Type} (p : α → Bool) (l : List α) :
    l.countP p + l.countP (fun a => !p a) = l.length := by
  simpa using (List.length_eq_countP_add_countP p (l := l)).symm

theorem length_partialTargets (f : Fragment) : f.partialTargets.length =
    f.partialInterfaces.length + f.partialMixins.length + f.partialDictionaries.length := by
  simp [Fragment.partialTargets, Nat.add_assoc]

/-- **A lenient fold never fails and accounts for everything.** The check against empty exposures
refuses no partial interface. Folding partial definitions ends, with each of them counted once and
nothing else in the report changed. Folding includes statements ends, with each of them counted once,
and the interfaces that statements are about have the mixins of these behind their lists, in the order
of the statements; nothing else changes. -/
theorem lenient_folds_account (fragments : List Fragment) (state : Folded) :
    (∀ base addition : Interface,
      base.exposeFor addition = .ok (base.exposedFor addition)) ∧
    (∃ g folded skipped,
      foldPartials .lenient fragments state = .ok ⟨g, state.report.countPartials folded skipped⟩ ∧
      folded = (fragments.flatMap Fragment.partialTargets).countP (·.isIn state.graph) ∧
      folded + skipped = (fragments.map fun f => f.partialInterfaces.length +
        f.partialMixins.length + f.partialDictionaries.length).sum) ∧
    ∃ folded skipped,
      foldIncludes .lenient fragments state =
        .ok ⟨state.graph.includingAll (fragments.flatMap (·.includes)),
          state.report.countIncludes folded skipped⟩ ∧
      folded = state.graph.foundIncludes (fragments.flatMap (·.includes)) ∧
      folded + skipped = (fragments.map (·.includes.length)).sum := by
  refine ⟨Interface.exposeFor_eq, ?_, ?_⟩
  · obtain ⟨⟨g, report⟩, hfold, -⟩ := (Seeks.foldlM seeks_foldFragment fragments).lenient state
    obtain rfl := (Counted.foldPartials hfold).report
    refine ⟨g, _, _, hfold, rfl, ?_⟩
    rw [countP_add_countP_not, List.length_flatMap]
    simp only [length_partialTargets]
  · refine ⟨_, _, foldlM_foldInclude_lenient _ state, rfl, ?_⟩
    rw [Graph.foundIncludes, Graph.missingIncludes, countP_add_countP_not, List.length_flatMap]

end IdlDecls
