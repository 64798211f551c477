import IdlDecls.Proofs.View.Hidden

/-!
# What a view shows

Interfaces are selected by exposure or because they are known, and a selected interface shows all of its
members but those that contexts of their own hide, whatever it was selected for
(`Graph.view_selects_exactly`). Mixins and namespaces pass their exposure on to their members in every
case. So a namespace that is there only because it is known shows what a known interface would show if it
has no contexts of its own, or if each of its members has some; otherwise it loses the members that
have none (`Graph.view_known_namespace_iff`).
-/

namespace IdlDecls

/-! ## Tests for members -/

/-- A member of the interface, or its constructor, has the exposure `own`. -/
inductive Interface.HasOwn (i : Interface) (own : Option Exposure) : Prop where
  | constant {name : String} {c : Constant} :
      i.constant? name = some c → c.exposed = own → HasOwn i own
  | method {name : String} {m : Method} : i.method? name = some m → m.exposed = own → HasOwn i own
  | property {name : String} {p : Property} :
      i.property? name = some p → p.exposed = own → HasOwn i own
  | constructor {c : Constructor} : i.constructor = some c → c.exposed = own → HasOwn i own

namespace Interface

variable {passes passes' : Option Exposure → Prop} {whole seen : Interface}

/-- Tests that agree on the members of an interface restrict it to the same. -/
theorem Restricts.congr (h : whole.Restricts passes seen)
    (hsame : ∀ own, whole.HasOwn own → (passes own ↔ passes' own)) :
    whole.Restricts passes' seen where
  others := h.others
  constants := h.constants
  methods := h.methods
  properties := h.properties
  constant name c := (h.constant name c).trans (and_congr_right fun hc => hsame _ (.constant hc rfl))
  method name m := (h.method name m).trans (and_congr_right fun hm => hsame _ (.method hm rfl))
  property name p := (h.property name p).trans (and_congr_right fun hp => hsame _ (.property hp rfl))
  constructor c := (h.constructor c).trans (and_congr_right fun hc => hsame _ (.constructor hc rfl))

/-- Tests that restrict an interface to the same agree on its members. -/
theorem Restricts.agree (h : whole.Restricts passes seen) (h' : whole.Restricts passes' seen)
    {own : Option Exposure} (hown : whole.HasOwn own) : passes own ↔ passes' own := by
  cases hown with
  | constant hc heq =>
    subst heq
    exact (and_congr_right_iff.1 ((h.constant _ _).symm.trans (h'.constant _ _))) hc
  | method hm heq =>
    subst heq
    exact (and_congr_right_iff.1 ((h.method _ _).symm.trans (h'.method _ _))) hm
  | property hp heq =>
    subst heq
    exact (and_congr_right_iff.1 ((h.property _ _).symm.trans (h'.property _ _))) hp
  | constructor hc heq =>
    subst heq
    exact (and_congr_right_iff.1 ((h.constructor _).symm.trans (h'.constructor _))) hc

/-- A member that does not pass is not seen. -/
theorem Restricts.unseen {α : Type} {whole seen : Option α} {passes : α → Prop}
    (h : ∀ x, seen = some x ↔ whole = some x ∧ passes x) {x : α} (hwhole : whole = some x)
    (hfails : ¬ passes x) : seen = none := by
  rw [Option.eq_none_iff_forall_ne_some]
  intro y hy
  obtain ⟨hsame, hpasses⟩ := (h y).1 hy
  cases hwhole.symm.trans hsame
  exact hfails hpasses

/-- **A selected interface shows what contexts of its own do not hide.** If it is exposed in the context,
what its members inherit does not hide them; if it is known, they inherit nothing. -/
theorem restricts_of_selected {context : String} {known : List String} {i j : Interface}
    (h : Graph.selectInterface? context known i = some j) : i.Restricts
      (fun own => Exposure.nonempty? own = none ∨ isExposedIn own context = true) j := by
  obtain ⟨-, rfl⟩ := Graph.selectInterface?_eq_some_iff.1 h
  refine (i.restricts_scopedTo context _).congr fun own _ => ?_
  cases hexposed : isExposedIn i.exposed context with
  | true => exact Exposure.seenUnder_of_exposed hexposed
  | false => exact Exposure.seenUnder_none_iff

end Interface

/-! ## Interfaces and mixins -/

/-- Entries in ascending order that go by other names: of those that share a name, the one with the
greatest key stands under it. -/
theorem Entries.exists_last_of_get? {α β : Type} {name : α → String} {f : α → β} {key : String}
    {y : β} : ∀ {l : Entries α}, Ascending l →
      get? (l.map fun e => (name e.2, f e.2)).reverse key = some y →
        ∃ e ∈ l, name e.2 = key ∧ f e.2 = y ∧ ∀ d ∈ l, name d.2 = key → d.1 ≤ e.1
  | [], _, h => by cases h
  | d :: l, hl, h => by
    obtain ⟨hhead, htail⟩ := List.pairwise_cons.1 hl
    rw [List.map_cons, List.reverse_cons, get?_append, Option.or_eq_some_iff] at h
    rcases h with h | ⟨hnone, h⟩
    · obtain ⟨e, he, hname, hy, hlast⟩ := exists_last_of_get? htail h
      refine ⟨e, List.mem_cons_of_mem d he, hname, hy, fun d' hd' hd'name => ?_⟩
      rcases List.mem_cons.1 hd' with rfl | hd'
      · exact Std.le_of_lt (hhead e he)
      · exact hlast d' hd' hd'name
    · have hd : (key, y) = (name d.2, f d.2) := by simpa using mem_of_get? h
      obtain ⟨hname, hy⟩ := Prod.mk.inj hd
      refine ⟨d, List.mem_cons_self .., hname.symm, hy.symm, fun d' hd' hd'name => ?_⟩
      rcases List.mem_cons.1 hd' with rfl | hd'
      · exact Std.le_refl _
      · -- a later entry with the name would stand under it
        have hother := get?_eq_none_iff.1 hnone (name d'.2, f d'.2)
          (List.mem_reverse.2 (List.mem_map.2 ⟨d', hd', rfl⟩))
        exact absurd hd'name hother

namespace Graph

variable {g : Graph} {context : String} {known : List String}

/-- The mixins of a view are mixins of the graph as the context sees them. They stand under their names;
of several mixins with one name the last is shown. -/
theorem exists_last_of_mixin?_viewParts {name : String} {m : Interface}
    (hm : (g.viewParts context known).mixin? name = some m) :
    ∃ key whole, g.mixin? key = some whole ∧ whole.name = name ∧
      (∀ key' other, g.mixin? key' = some other → other.name = name → key' ≤ key) ∧
      m = whole.scopedTo context true := by
  rw [mixin?, viewParts, lookup?_keepReached, lookup?_some, scopedMixins, Keyed.get?_ofList] at hm
  rw [show g.mixin? = lookup? g.mixins from rfl]
  cases hmixins : g.mixins with
  | none =>
    rw [hmixins] at hm
    cases hm.1
  | some mixins =>
    rw [hmixins] at hm
    have hentries : (valuesOf (some mixins)).map (fun m => (m.name, m.scopedTo context true)) =
        mixins.entries.map fun e => (e.2.name, e.2.scopedTo context true) := by
      rw [valuesOf, Keyed.values, List.map_map]
      rfl
    rw [hentries] at hm
    obtain ⟨e, he, hname, hscoped, hlast⟩ := Entries.exists_last_of_get? mixins.ascending hm.1
    refine ⟨e.1, e.2, Keyed.get?_eq_some_iff_mem.2 he, hname, fun key' other hother => ?_, hscoped.symm⟩
    exact hlast (key', other) (Keyed.get?_eq_some_iff_mem.1 hother)

/-- **What a view shows of interfaces and mixins.** Where interfaces go by their keys, a view has just
the interfaces that are exposed in the context or known, with all of their members but those that are
hidden by contexts of their own. A mixin of a view is the last with its name, with the members that are
seen under its exposure. -/
theorem view_selects_exactly (hnames : IdlDecls.NamesAreKeys Interface.name g.interfaces)
    (hcontext : Text.blank context = false) (known : List String) :
    ∃ v, g.view context known = .ok v ∧
      (∀ name, (v.interface? name).isSome ↔ ∃ i, g.interface? name = some i ∧
        (isExposedIn i.exposed context = true ∨ name ∈ known)) ∧
      (∀ name i j, g.interface? name = some i → v.interface? name = some j → i.Restricts
        (fun own => Exposure.nonempty? own = none ∨ isExposedIn own context = true) j) ∧
      ∀ name m, v.mixin? name = some m →
        ∃ key whole, g.mixin? key = some whole ∧ whole.name = name ∧
          (∀ key' other, g.mixin? key' = some other → other.name = name → key' ≤ key) ∧
          whole.Restricts (Exposure.SeenUnder context whole.exposed) m := by
  refine ⟨_, view_eq_ok g known hcontext, fun name => ?_, fun name i j hi hj => ?_, fun name m hm => ?_⟩
  · rw [interface?_viewParts_eq_bind hnames, Option.isSome_iff_exists]
    simp only [Option.bind_eq_some_iff, selectInterface?_eq_some_iff]
    constructor
    · rintro ⟨j, i, hi, hselected, -⟩
      exact ⟨i, hi, hnames name i hi ▸ hselected⟩
    · rintro ⟨i, hi, hselected⟩
      exact ⟨_, i, hi, (hnames name i hi).symm ▸ hselected, rfl⟩
  · rw [interface?_viewParts_eq_bind hnames, hi, Option.bind_some] at hj
    exact Interface.restricts_of_selected hj
  · obtain ⟨key, whole, hwhole, hname, hlast, rfl⟩ := exists_last_of_mixin?_viewParts hm
    exact ⟨key, whole, hwhole, hname, hlast, whole.restricts_scopedTo context true⟩

/-- An interface for windows. Its methods have an empty exposure and contexts of their own. -/
def beacon : Interface where
  name := "Beacon"
  implements := some ["Marking"]
  exposed := some (.ofList ["Window"])
  methods := some (.ofList [
    ("dim", { name := "dim", exposed := some (.ofList []) }),
    ("relay", { name := "relay", exposed := some (.ofList ["DedicatedWorker"]) })])

/-- An interface for workers. Its method has no exposure, its constructor has one. -/
def foghorn : Interface where
  name := "Foghorn"
  exposed := some (.ofList ["Worker"])
  methods := some (.ofList [("sound", { name := "sound" })])
  constructor := some { exposed := some (.ofList ["Worker"]) }

/-- A mixin for workers. Its constant has no exposure, its property has one. -/
def marking : Interface where
  name := "Marking"
  exposed := some (.ofList ["Worker"])
  constants := some (.ofList [("RED", { name := "RED" })])
  properties := some (.ofList [
    ("height", { name := "height", exposed := some (.ofList ["Window"]) })])

def signalGraph : Graph where
  interfaces := some (.ofList [("Beacon", beacon), ("Foghorn", foghorn)])
  mixins := some (.ofList [("Marking", marking)])

/-- In a window where the foghorn is known, its method stays and its constructor does not. The constant
of the mixin inherits what hides it. -/
theorem signalGraph_view :
    IdlDecls.NamesAreKeys Interface.name signalGraph.interfaces ∧ Text.blank "Window" = false ∧
      ∃ v, signalGraph.view "Window" ["Foghorn"] = .ok v ∧
        (∃ j, v.interface? "Beacon" = some j ∧ (j.method? "dim").isSome ∧ j.method? "relay" = none) ∧
        (∃ j, v.interface? "Foghorn" = some j ∧ (j.method? "sound").isSome ∧ j.constructor = none) ∧
        ∃ m, v.mixin? "Marking" = some m ∧ m.constant? "RED" = none ∧ (m.property? "height").isSome := by
  have hnames : IdlDecls.NamesAreKeys Interface.name signalGraph.interfaces := by decide +kernel
  have hcontext : Text.blank "Window" = false := by decide +kernel
  have hbeacon : signalGraph.interface? "Beacon" = some beacon := rfl
  have hfoghorn : signalGraph.interface? "Foghorn" = some foghorn := rfl
  obtain ⟨v, hv, hselected, hinterface, hmixin⟩ := view_selects_exactly hnames hcontext ["Foghorn"]
  obtain ⟨j, hj⟩ := Option.isSome_iff_exists.1
    ((hselected "Beacon").2 ⟨beacon, hbeacon, Or.inl (by decide +kernel)⟩)
  obtain ⟨j', hj'⟩ := Option.isSome_iff_exists.1
    ((hselected "Foghorn").2 ⟨foghorn, hfoghorn, Or.inr (by decide)⟩)
  have hseen := hinterface "Beacon" beacon j hbeacon hj
  have hseen' := hinterface "Foghorn" foghorn j' hfoghorn hj'
  have hmarking : v.mixin? "Marking" = some (marking.scopedTo "Window" true) := by
    rw [view_eq_ok _ _ hcontext] at hv
    cases hv
    have hmixins : j.implements = some ["Marking"] := congrArg Interface.implements hseen.others
    have hmention : j.Mentions "Marking" := .mixin (by simp [hmixins])
    exact ((keeps_viewParts (by decide +kernel) "Window" ["Foghorn"]).mixins _ _).2
      ⟨marking, rfl, .mention (.interface hj) (.interface hj hmention),
        marking.restricts_scopedTo "Window" true⟩
  obtain ⟨key, whole, hwhole, -, -, hseen''⟩ := hmixin _ _ hmarking
  have honly : (key, whole) ∈ [("Marking", marking)] := Keyed.get?_eq_some_iff_mem.1 hwhole
  cases List.mem_singleton.1 honly
  refine ⟨hnames, hcontext, v, hv, ⟨j, hj, ?_, ?_⟩, ⟨j', hj', ?_, ?_⟩, _, hmarking, ?_, ?_⟩
  · exact Option.isSome_iff_exists.2 ⟨_, (hseen.method "dim" _).2 ⟨rfl, Or.inl rfl⟩⟩
  · exact Interface.Restricts.unseen (hseen.method "relay") rfl (by decide +kernel)
  · exact Option.isSome_iff_exists.2 ⟨_, (hseen'.method "sound" _).2 ⟨rfl, Or.inl rfl⟩⟩
  · exact Interface.Restricts.unseen hseen'.constructor rfl (by decide +kernel)
  · refine Interface.Restricts.unseen (hseen''.constant "RED") rfl ?_
    rw [← isMemberVisible_iff]
    decide +kernel
  · have hheight : Exposure.SeenUnder "Window" marking.exposed (some (.ofList ["Window"])) :=
      isMemberVisible_iff.1 (by decide +kernel)
    exact Option.isSome_iff_exists.2 ⟨_, (hseen''.property "height" _).2 ⟨rfl, hheight⟩⟩

/-! ## Namespaces -/

/-- The namespaces of a view are the selected ones in their order, as the context sees them. -/
theorem namespaces_viewParts_eq : (g.viewParts context known).namespaces.getD [] =
    ((g.namespaces.getD []).filter fun n =>
      isExposedIn n.exposed context || known.contains n.name).map (·.scopedTo context true) := by
  rw [namespaces_viewParts, viewNamespaces, ← List.filterMap_eq_map, List.filterMap_filter]
  rfl

/-- A member that is not hidden by contexts of its own is seen under a parent that is not visible itself
exactly if it has contexts of its own or the parent has none. -/
theorem seenUnder_of_not_exposed {parent own : Option Exposure}
    (hparent : isExposedIn parent context = false) : Exposure.SeenUnder context parent own ↔
      (Exposure.nonempty? own = none ∨ isExposedIn own context = true) ∧
        (Exposure.nonempty? parent = none ∨ (Exposure.nonempty? own).isSome) := by
  constructor
  · rintro (⟨hsome, hvisible⟩ | ⟨-, -, hvisible⟩ | ⟨hnone, hparentNone⟩)
    · exact ⟨Or.inr hvisible, Or.inr hsome⟩
    · exact absurd hvisible (by simp [hparent])
    · exact ⟨Or.inl hnone, Or.inl hparentNone⟩
  · rintro ⟨hown, hinherits⟩
    cases hset : Exposure.nonempty? own with
    | none =>
      rw [hset] at hinherits
      exact .neither hset (hinherits.resolve_right (by simp))
    | some e =>
      rw [hset] at hown
      exact .own (Option.isSome_iff_exists.2 ⟨e, hset⟩) (hown.resolve_left (by simp))

/-- **Known namespaces are not known interfaces.** The namespaces of a view are those that are exposed in
the context or known, each with the members that are seen under its exposure. So one that is there only
because it is known loses, beside the members that contexts of their own hide, those without contexts of
their own, unless it has none itself. It shows what a known interface would show exactly if it has no
contexts or all of its members have some. -/
theorem view_known_namespace_iff (g : Graph) (hcontext : Text.blank context = false)
    (known : List String) : ∃ v, g.view context known = .ok v ∧
      List.Forall₂ (fun n m => n.Restricts (Exposure.SeenUnder context n.exposed) m)
        ((g.namespaces.getD []).filter fun n =>
          isExposedIn n.exposed context || known.contains n.name) (v.namespaces.getD []) ∧
      ∀ n ∈ g.namespaces.getD [], n.name ∈ known → isExposedIn n.exposed context = false →
        ∃ m ∈ v.namespaces.getD [],
          n.Restricts (fun own =>
            (Exposure.nonempty? own = none ∨ isExposedIn own context = true) ∧
            (Exposure.nonempty? n.exposed = none ∨ (Exposure.nonempty? own).isSome)) m ∧
          (n.Restricts (fun own => Exposure.nonempty? own = none ∨ isExposedIn own context = true) m ↔
            Exposure.nonempty? n.exposed = none ∨
              ∀ own, n.HasOwn own → (Exposure.nonempty? own).isSome) := by
  refine ⟨_, view_eq_ok g known hcontext, ?_, fun n hn hname hexposed => ?_⟩
  · rw [namespaces_viewParts_eq, List.forall₂_map_right_iff, List.forall₂_same]
    exact fun n _ => n.restricts_scopedTo context true
  · have hmem : n.scopedTo context true ∈ (g.viewParts context known).namespaces.getD [] := by
      rw [namespaces_viewParts_eq]
      exact List.mem_map.2 ⟨n, List.mem_filter.2 ⟨hn, by simp [hname]⟩, rfl⟩
    have hseen : n.Restricts (fun own =>
        (Exposure.nonempty? own = none ∨ isExposedIn own context = true) ∧
        (Exposure.nonempty? n.exposed = none ∨ (Exposure.nonempty? own).isSome))
        (n.scopedTo context true) :=
      (n.restricts_scopedTo context true).congr fun own _ => seenUnder_of_not_exposed hexposed
    refine ⟨_, hmem, hseen, fun hlike => ?_, fun hset => ?_⟩
    · cases hparent : Exposure.nonempty? n.exposed with
      | none => exact Or.inl rfl
      | some p =>
        refine Or.inr fun own hown => ?_
        rw [← Option.ne_none_iff_isSome]
        intro hnone
        -- without contexts it would be shown, but it inherits contexts that hide it
        have hboth := (hseen.agree hlike hown).2 (Or.inl hnone)
        simp [hparent, hnone] at hboth
    · refine hseen.congr fun own hown => and_iff_left ?_
      exact hset.imp_right fun hall => hall own hown

/-- An interface and a namespace for workers, each with a method that says nothing of its exposure. -/
def consoleGraph : Graph where
  interfaces := some (.ofList [("Console", {
    name := "Console"
    exposed := some (.ofList ["Worker"])
    methods := some (.ofList [("log", { name := "log" })]) })])
  namespaces := some [{
    name := "console"
    exposed := some (.ofList ["Worker"])
    methods := some (.ofList [("log", { name := "log" })]) }]

/-- Where both are known, a window sees the method of the interface but not that of the namespace. -/
theorem consoleGraph_view_drops_method :
    ∃ v, consoleGraph.view "Window" ["Console", "console"] = .ok v ∧
      (∃ j, v.interface? "Console" = some j ∧ (j.method? "log").isSome) ∧
      ∃ m ∈ v.namespaces.getD [], m.name = "console" ∧ m.method? "log" = none := by
  have hcontext : Text.blank "Window" = false := by decide +kernel
  refine ⟨_, view_eq_ok consoleGraph _ hcontext, ?_, ?_⟩
  · exact ⟨(consoleGraph.interface? "Console").get!, by decide +kernel, by decide +kernel⟩
  · rw [namespaces_viewParts_eq]
    decide +kernel

end Graph

end IdlDecls
