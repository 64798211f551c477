import IdlDecls.Proofs.Model.RestoredGraph

/-!
# Conventions on exposures, values and names

A `Convention` says what every exposure and every value of a graph keeps to, and what the name of an
entry or of a member is to the key that it stands under. A graph that follows one is tidy as well (`Graph.Follows`),
so following a convention is all that has to be carried from one graph to the next. Pruning may take
names away; they are filled in from the keys again, which turns a convention that leaves names free to
be empty (`Convention.loose`) back into the convention itself (`Graph.Follows.fillNames`).
-/

namespace IdlDecls

variable {α : Type}

/-! ## Conventions -/

/-- What exposures, values and names keep to. -/
structure Convention where
  exposure : Exposure → Prop
  literal : Json → Prop
  /-- What a key and the name under it are to each other. -/
  name : String → String → Prop
  /-- Contexts may be added. -/
  extend : ∀ {a b : Exposure}, exposure a → exposure b → exposure (a.extend b)
  /-- A written exposure may be read again. -/
  reread : ∀ {e : Exposure}, exposure e → exposure (.ofText e.text)
  /-- A value that is read is not null, and no other value is forbidden. -/
  literal_of_ne_null : ∀ {j : Json}, j ≠ .null → literal j
  /-- A key may be filled in. -/
  ownKey : ∀ key, name key key

/-- A name that is not left to be filled in from its key. -/
def NameFilled (key name : String) : Prop := nameOr key name = name

namespace Convention

/-- Nothing is asked for. -/
def free : Convention where
  exposure _ := True
  literal _ := True
  name _ _ := True
  extend _ _ := trivial
  reread _ := trivial
  literal_of_ne_null _ := trivial
  ownKey _ := trivial

theorem plain_extend {a b : Exposure} (ha : a.Plain) (hb : b.Plain) : (a.extend b).Plain := by
  intro context hcontext
  rw [contexts_extend, mem_joinedNames] at hcontext
  rcases hcontext with hcontext | hcontext
  · exact ha context hcontext
  · exact hb context hcontext

theorem nameOr_self (key : String) : nameOr key key = key := by
  simp [nameOr]

/-- No value is null, and no name is left to be filled in. -/
def filled : Convention where
  exposure _ := True
  literal := (· ≠ .null)
  name := NameFilled
  extend _ _ := trivial
  reread _ := trivial
  literal_of_ne_null := id
  ownKey := nameOr_self

/-- No value is null, no name is left to be filled in, and no context of an exposure holds a blank. -/
def plain : Convention where
  exposure := Exposure.Plain
  literal := (· ≠ .null)
  name := NameFilled
  extend := plain_extend
  reread h := by rwa [Exposure.ofText_text h]
  literal_of_ne_null := id
  ownKey := nameOr_self

/-- Names are keys. -/
def keys : Convention where
  exposure _ := True
  literal _ := True
  name key name := name = key
  extend _ _ := trivial
  reread _ := trivial
  literal_of_ne_null _ := trivial
  ownKey _ := rfl

/-- The convention with names that may be empty. -/
def loose (c : Convention) : Convention where
  exposure := c.exposure
  literal := c.literal
  name key name := name = "" ∨ c.name key name
  extend := c.extend
  reread := c.reread
  literal_of_ne_null := c.literal_of_ne_null
  ownKey key := Or.inr (c.ownKey key)

theorem name_nameOr {c : Convention} {key name : String} (h : c.loose.name key name) :
    c.name key (nameOr key name) := by
  rw [nameOr]
  by_cases hname : name = ""
  · rw [if_pos hname]
    exact c.ownKey key
  · rw [if_neg hname]
    exact h.resolve_left hname

/-- Names that are not empty are not left to be filled in. -/
theorem name_loose_filled (key name : String) : filled.loose.name key name := by
  by_cases hname : name = ""
  · exact Or.inl hname
  · exact Or.inr (if_neg hname)

end Convention

/-- Every entry of a collection is to its key as `P` says. -/
def EachEntry (P : String → α → Prop) (c : Option (Keyed α)) : Prop :=
  ∀ key value, lookup? c key = some value → P key value

theorem EachEntry.mono {P Q : String → α → Prop} {c : Option (Keyed α)} (h : EachEntry P c)
    (hPQ : ∀ key value, P key value → Q key value) : EachEntry Q c :=
  fun key value hvalue => hPQ key value (h key value hvalue)

theorem EachEntry.map {P Q : String → α → Prop} {f : String → α → α} {c : Option (Keyed α)}
    (h : EachEntry P c) (hf : ∀ key value, P key value → Q key (f key value)) :
    EachEntry Q (c.map (·.map f)) := by
  intro key value hvalue
  rw [lookup?_map_entries] at hvalue
  obtain ⟨old, hold, rfl⟩ := Option.map_eq_some_iff.1 hvalue
  exact hf key old (h key old hold)

theorem eachEntry_iff {P : String → α → Prop} {c : Option (Keyed α)} :
    EachEntry P c ↔ ∀ m ∈ c, ∀ e ∈ m.entries, P e.1 e.2 := by
  cases c with
  | none => simp [EachEntry]
  | some m =>
    simp only [EachEntry, lookup?_some, Keyed.get?_eq_some_iff_mem, Option.mem_some_iff, forall_eq',
      Prod.forall]

instance (P : String → α → Prop) [∀ key value, Decidable (P key value)] (c : Option (Keyed α)) :
    Decidable (EachEntry P c) :=
  decidable_of_iff _ eachEntry_iff.symm

/-- A change that leaves a collection as it is leaves every entry as it is. -/
theorem map_entries_eq_self_iff {f : String → α → α} {c : Option (Keyed α)} :
    c.map (·.map f) = c ↔ EachEntry (fun key value => f key value = value) c := by
  cases c with
  | none => simp [EachEntry]
  | some m =>
    simp only [Option.map_some, Option.some.injEq, EachEntry, lookup?_some]
    constructor
    · intro h key value hvalue
      have hlookup := Keyed.get?_map f m key
      rw [h, hvalue] at hlookup
      exact (Option.some.inj hlookup).symm
    · intro h
      refine Keyed.ext_get? fun key => ?_
      rw [Keyed.get?_map]
      cases hvalue : m.get? key with
      | none => rfl
      | some value => exact congrArg some (h key value hvalue)

/-! ## Members -/

/-- A constant that follows a convention under its key. -/
structure Constant.Follows (c : Convention) (key : String) (x : Constant) : Prop
    extends Constant.Tidy x where
  name : c.name key x.name
  value : ∀ j ∈ x.value, c.literal j
  exposed : ∀ e ∈ x.exposed, c.exposure e

/-- A method that follows a convention under its key. -/
structure Method.Follows (c : Convention) (key : String) (m : Method) : Prop
    extends Method.Tidy m where
  name : c.name key m.name
  exposed : ∀ e ∈ m.exposed, c.exposure e

/-- A property that follows a convention under its key. -/
structure Property.Follows (c : Convention) (key : String) (p : Property) : Prop
    extends Property.Tidy p where
  name : c.name key p.name
  exposed : ∀ e ∈ p.exposed, c.exposure e

/-- A constructor that follows a convention. -/
structure Constructor.Follows (c : Convention) (x : Constructor) : Prop
    extends Constructor.Tidy x where
  exposed : ∀ e ∈ x.exposed, c.exposure e

/-- A dictionary member that follows a convention under its key. -/
structure Member.Follows (c : Convention) (key : String) (m : Member) : Prop
    extends Member.Tidy m where
  name : c.name key m.name
  default : ∀ j ∈ m.default, c.literal j

/-! ## Definitions -/

/-- An interface that follows a convention, whatever it goes by itself. -/
structure Interface.Follows (c : Convention) (i : Interface) : Prop where
  constants : EachEntry (Constant.Follows c) i.constants
  methods : EachEntry (Method.Follows c) i.methods
  properties : EachEntry (Property.Follows c) i.properties
  constructor : ∀ x ∈ i.constructor, x.Follows c
  exposed : ∀ e ∈ i.exposed, c.exposure e
  overrideExposed : ∀ e ∈ i.overrideExposed, c.exposure e
  iterator : ∀ d ∈ i.iterator, d.Tidy
  extra : i.extra.Beside Interface.keys

/-- An interface that follows a convention under its key. -/
structure Interface.FollowsAt (c : Convention) (key : String) (i : Interface) : Prop
    extends Interface.Follows c i where
  name : c.name key i.name

/-- A dictionary that follows a convention, whatever it goes by itself. -/
structure Dictionary.Follows (c : Convention) (d : Dictionary) : Prop where
  members : EachEntry (Member.Follows c) d.members
  extra : d.extra.Beside Dictionary.keys

/-- A dictionary that follows a convention under its key. -/
structure Dictionary.FollowsAt (c : Convention) (key : String) (d : Dictionary) : Prop
    extends Dictionary.Follows c d where
  name : c.name key d.name

/-- An enumeration that follows a convention under its key. -/
structure Enumeration.FollowsAt (c : Convention) (key : String) (e : Enumeration) : Prop
    extends Enumeration.Tidy e where
  name : c.name key e.name

/-- A callback function that follows a convention under its key. -/
structure CallbackFunction.FollowsAt (c : Convention) (key : String) (f : CallbackFunction) : Prop
    extends CallbackFunction.Tidy f where
  name : c.name key f.name

/-- A graph that follows a convention. -/
structure Graph.Follows (c : Convention) (g : Graph) : Prop where
  callbackFunctions : EachEntry (CallbackFunction.FollowsAt c) g.callbackFunctions
  callbackInterfaces : EachEntry (Interface.FollowsAt c) g.callbackInterfaces
  dictionaries : EachEntry (Dictionary.FollowsAt c) g.dictionaries
  enums : EachEntry (Enumeration.FollowsAt c) g.enums
  interfaces : EachEntry (Interface.FollowsAt c) g.interfaces
  mixins : EachEntry (Interface.FollowsAt c) g.mixins
  namespaces : ∀ items ∈ g.namespaces, ∀ i ∈ items, i.Follows c
  typedefs : ∀ items ∈ g.typedefs, ∀ t ∈ items, t.Tidy
  extra : g.extra.Beside Graph.fieldKeys

/-! ## The parts of a convention -/

section Named

variable (R : String → String → Prop)

/-- The names of an interface's members are to their keys as `R` says. -/
structure Interface.MembersNamed (i : Interface) : Prop where
  constants : EachEntry (fun key x => R key x.name) i.constants
  methods : EachEntry (fun key m => R key m.name) i.methods
  properties : EachEntry (fun key p => R key p.name) i.properties

/-- The names of a dictionary's members are to their keys as `R` says. -/
def Dictionary.MembersNamed (d : Dictionary) : Prop :=
  EachEntry (fun key m => R key m.name) d.members

/-- The names of all entries and members of a graph are to their keys as `R` says. Namespaces stand
under no keys, but their members do. -/
structure Graph.Named (g : Graph) : Prop where
  callbackFunctions : EachEntry (fun key f => R key f.name) g.callbackFunctions
  callbackInterfaces : EachEntry (fun key i => R key i.name ∧ i.MembersNamed R) g.callbackInterfaces
  dictionaries : EachEntry (fun key d => R key d.name ∧ d.MembersNamed R) g.dictionaries
  enums : EachEntry (fun key e => R key e.name) g.enums
  interfaces : EachEntry (fun key i => R key i.name ∧ i.MembersNamed R) g.interfaces
  mixins : EachEntry (fun key i => R key i.name ∧ i.MembersNamed R) g.mixins
  namespaces : ∀ items ∈ g.namespaces, ∀ i ∈ items, i.MembersNamed R

variable {R}

theorem Interface.membersNamed_of_forall (hR : ∀ key name, R key name) (i : Interface) :
    i.MembersNamed R :=
  ⟨fun key x _ => hR key x.name, fun key m _ => hR key m.name, fun key p _ => hR key p.name⟩

theorem Graph.named_of_forall (hR : ∀ key name, R key name) (g : Graph) : g.Named R where
  callbackFunctions key f _ := hR key f.name
  callbackInterfaces key i _ := ⟨hR key i.name, i.membersNamed_of_forall hR⟩
  dictionaries key d _ := ⟨hR key d.name, fun key m _ => hR key m.name⟩
  enums key e _ := hR key e.name
  interfaces key i _ := ⟨hR key i.name, i.membersNamed_of_forall hR⟩
  mixins key i _ := ⟨hR key i.name, i.membersNamed_of_forall hR⟩
  namespaces _ _ i _ := i.membersNamed_of_forall hR

variable [∀ key name, Decidable (R key name)]

instance (i : Interface) : Decidable (i.MembersNamed R) :=
  decidable_of_iff (_ ∧ _ ∧ _)
    ⟨fun ⟨h, h', h''⟩ => ⟨h, h', h''⟩, fun h => ⟨h.constants, h.methods, h.properties⟩⟩

instance (d : Dictionary) : Decidable (d.MembersNamed R) :=
  inferInstanceAs (Decidable (EachEntry _ _))

instance (g : Graph) : Decidable (g.Named R) :=
  decidable_of_iff (_ ∧ _ ∧ _ ∧ _ ∧ _ ∧ _ ∧ _)
    ⟨fun ⟨h, h', h'', h₃, h₄, h₅, h₆⟩ => ⟨h, h', h'', h₃, h₄, h₅, h₆⟩,
      fun h => ⟨h.callbackFunctions, h.callbackInterfaces, h.dictionaries, h.enums, h.interfaces,
        h.mixins, h.namespaces⟩⟩

end Named

theorem Interface.fillMemberNames_eq_self_iff {i : Interface} :
    i.fillMemberNames = i ↔ i.MembersNamed NameFilled := by
  have hparts : i.fillMemberNames = i ↔
      i.fillMemberNames.constants = i.constants ∧ i.fillMemberNames.methods = i.methods ∧
        i.fillMemberNames.properties = i.properties := by
    cases i
    simp [fillMemberNames]
  have hconstant : ∀ key (x : Constant),
      { x with name := nameOr key x.name } = x ↔ NameFilled key x.name := by
    rintro key ⟨⟩
    simp [NameFilled]
  have hmethod : ∀ key (m : Method),
      { m with name := nameOr key m.name } = m ↔ NameFilled key m.name := by
    rintro key ⟨⟩
    simp [NameFilled]
  have hproperty : ∀ key (p : Property),
      { p with name := nameOr key p.name } = p ↔ NameFilled key p.name := by
    rintro key ⟨⟩
    simp [NameFilled]
  rw [hparts]
  simp only [fillMemberNames, map_entries_eq_self_iff, hconstant, hmethod, hproperty]
  constructor
  · rintro ⟨hconstants, hmethods, hproperties⟩
    exact ⟨hconstants, hmethods, hproperties⟩
  · intro h
    exact ⟨h.constants, h.methods, h.properties⟩

theorem Interface.fillNames_eq_self_iff {key : String} {i : Interface} :
    i.fillNames key = i ↔ NameFilled key i.name ∧ i.MembersNamed NameFilled := by
  rw [← Interface.fillMemberNames_eq_self_iff]
  cases i
  simp [fillNames, fillMemberNames, NameFilled]

theorem Dictionary.fillNames_eq_self_iff {key : String} {d : Dictionary} :
    d.fillNames key = d ↔ NameFilled key d.name ∧ d.MembersNamed NameFilled := by
  have hmember : ∀ key (m : Member),
      { m with name := nameOr key m.name } = m ↔ NameFilled key m.name := by
    rintro key ⟨⟩
    simp [NameFilled]
  have hparts : d.fillNames key = d ↔
      nameOr key d.name = d.name ∧ (d.fillNames key).members = d.members := by
    cases d
    simp [fillNames, fillMemberNames]
  rw [hparts]
  simp only [fillNames, fillMemberNames, map_entries_eq_self_iff, hmember]
  exact Iff.rfl

/-- **The graphs that filling in names leaves alone** are those without a name to fill in. -/
theorem Graph.fillNames_eq_self_iff {g : Graph} : g.fillNames = g ↔ g.Named NameFilled := by
  have hfunction : ∀ key (f : CallbackFunction),
      { f with name := nameOr key f.name } = f ↔ NameFilled key f.name := by
    rintro key ⟨⟩
    simp [NameFilled]
  have henum : ∀ key (e : Enumeration),
      { e with name := nameOr key e.name } = e ↔ NameFilled key e.name := by
    rintro key ⟨⟩
    simp [NameFilled]
  have hnamespaces : g.namespaces.map (·.map Interface.fillMemberNames) = g.namespaces ↔
      ∀ items ∈ g.namespaces, ∀ i ∈ items, i.MembersNamed NameFilled := by
    cases g.namespaces with
    | none => simp
    | some items =>
      have hitems : items.map Interface.fillMemberNames = items ↔
          ∀ i ∈ items, i.fillMemberNames = i := by
        simpa using List.map_inj_left (l := items) (f := Interface.fillMemberNames) (g := id)
      simp [hitems, Interface.fillMemberNames_eq_self_iff]
  have hparts : g.fillNames = g ↔
      g.fillNames.callbackFunctions = g.callbackFunctions ∧
      g.fillNames.callbackInterfaces = g.callbackInterfaces ∧
      g.fillNames.dictionaries = g.dictionaries ∧ g.fillNames.enums = g.enums ∧
      g.fillNames.interfaces = g.interfaces ∧ g.fillNames.mixins = g.mixins ∧
      g.fillNames.namespaces = g.namespaces := by
    cases g
    simp [fillNames]
  rw [hparts]
  simp only [fillNames, map_entries_eq_self_iff, hfunction, henum, hnamespaces,
    Interface.fillNames_eq_self_iff, Dictionary.fillNames_eq_self_iff]
  constructor
  · rintro ⟨hfunctions, hcallbacks, hdictionaries, henums, hinterfaces, hmixins, hnamespaces⟩
    exact ⟨hfunctions, hcallbacks, hdictionaries, henums, hinterfaces, hmixins, hnamespaces⟩
  · intro h
    exact ⟨h.callbackFunctions, h.callbackInterfaces, h.dictionaries, h.enums, h.interfaces, h.mixins,
      h.namespaces⟩

section Parts

variable {c : Convention}

theorem Interface.follows_iff {i : Interface} : i.Follows c ↔
    i.Tidy ∧ (∀ e ∈ i.exposures, c.exposure e) ∧ (∀ j ∈ i.literals, c.literal j) ∧
      i.MembersNamed c.name := by
  rw [Interface.forall_mem_exposures, Interface.forall_mem_literals]
  constructor
  · intro h
    exact ⟨⟨fun name x hx => (h.constants name x hx).toTidy,
      fun name m hm => (h.methods name m hm).toTidy,
      fun name p hp => (h.properties name p hp).toTidy, fun x hx => (h.constructor x hx).toTidy,
      h.iterator, h.extra⟩,
      ⟨h.exposed, h.overrideExposed, fun name x hx => (h.constants name x hx).exposed,
        fun name m hm => (h.methods name m hm).exposed,
        fun name p hp => (h.properties name p hp).exposed, fun x hx => (h.constructor x hx).exposed⟩,
      fun name x hx => (h.constants name x hx).value,
      ⟨h.constants.mono fun _ _ hx => hx.name, h.methods.mono fun _ _ hm => hm.name,
        h.properties.mono fun _ _ hp => hp.name⟩⟩
  · rintro ⟨htidy, ⟨hown, hoverride, hconstants, hmethods, hproperties, hconstructor⟩, hvalue, hnames⟩
    exact
      { constants := fun key x hx =>
          { htidy.constants key x hx with
            name := hnames.constants key x hx
            value := hvalue key x hx
            exposed := hconstants key x hx }
        methods := fun key m hm =>
          { htidy.methods key m hm with
            name := hnames.methods key m hm
            exposed := hmethods key m hm }
        properties := fun key p hp =>
          { htidy.properties key p hp with
            name := hnames.properties key p hp
            exposed := hproperties key p hp }
        constructor := fun x hx => { htidy.constructor x hx with exposed := hconstructor x hx }
        exposed := hown
        overrideExposed := hoverride
        iterator := htidy.iterator
        extra := htidy.extra }

theorem Interface.eachEntry_followsAt_iff {entries : Option (Keyed Interface)} :
    EachEntry (Interface.FollowsAt c) entries ↔
      (∀ key i, lookup? entries key = some i → i.Tidy) ∧
      (∀ key i, lookup? entries key = some i → ∀ e ∈ i.exposures, c.exposure e) ∧
      (∀ key i, lookup? entries key = some i → ∀ j ∈ i.literals, c.literal j) ∧
      EachEntry (fun key i => c.name key i.name ∧ i.MembersNamed c.name) entries := by
  constructor
  · intro h
    have hparts := fun key i hi => Interface.follows_iff.1 (h key i hi).toFollows
    exact ⟨fun key i hi => (hparts key i hi).1, fun key i hi => (hparts key i hi).2.1,
      fun key i hi => (hparts key i hi).2.2.1,
      fun key i hi => ⟨(h key i hi).name, (hparts key i hi).2.2.2⟩⟩
  · rintro ⟨htidy, hexposed, hliterals, hnames⟩ key i hi
    have hfollows := Interface.follows_iff.2
      ⟨htidy key i hi, hexposed key i hi, hliterals key i hi, (hnames key i hi).2⟩
    exact { hfollows with name := (hnames key i hi).1 }

theorem Dictionary.follows_iff {d : Dictionary} :
    d.Follows c ↔ d.Tidy ∧ (∀ j ∈ d.literals, c.literal j) ∧ d.MembersNamed c.name := by
  rw [Dictionary.forall_mem_literals]
  constructor
  · exact fun h => ⟨⟨fun name m hm => (h.members name m hm).toTidy, h.extra⟩,
      fun name m hm => (h.members name m hm).default, h.members.mono fun _ _ hm => hm.name⟩
  · rintro ⟨htidy, hdefault, hnames⟩
    exact
      { members := fun key m hm =>
          { htidy.members key m hm with
            name := hnames key m hm
            default := hdefault key m hm }
        extra := htidy.extra }

/-- **To follow a convention** is to be tidy, and to keep to it with every exposure, every value and
every name. -/
theorem Graph.follows_iff {g : Graph} : g.Follows c ↔
    g.Tidy ∧ (∀ e ∈ g.exposures, c.exposure e) ∧ (∀ j ∈ g.literals, c.literal j) ∧
      g.Named c.name := by
  rw [Graph.forall_mem_exposures, Graph.forall_mem_literals]
  constructor
  · intro h
    obtain ⟨hct, hce, hcl, hcn⟩ := Interface.eachEntry_followsAt_iff.1 h.callbackInterfaces
    obtain ⟨hit, hie, hil, hin⟩ := Interface.eachEntry_followsAt_iff.1 h.interfaces
    obtain ⟨hmt, hme, hml, hmn⟩ := Interface.eachEntry_followsAt_iff.1 h.mixins
    have hn := fun items hitems i hi => Interface.follows_iff.1 (h.namespaces items hitems i hi)
    have hd := fun key d hd => Dictionary.follows_iff.1 (h.dictionaries key d hd).toFollows
    refine ⟨⟨fun key f hf => (h.callbackFunctions key f hf).toTidy, hct, fun key d hmem => (hd key d hmem).1,
      fun key e he => (h.enums key e he).toTidy, hit, hmt,
      fun items hitems i hi => (hn items hitems i hi).1, h.typedefs, h.extra⟩,
      ⟨hce, hie, hme, fun items hitems i hi => (hn items hitems i hi).2.1⟩,
      ⟨hcl, hil, hml, fun items hitems i hi => (hn items hitems i hi).2.2.1,
        fun key d hmem => (hd key d hmem).2.1⟩,
      ⟨h.callbackFunctions.mono fun _ _ hf => hf.name, hcn,
        fun key d hmem => ⟨(h.dictionaries key d hmem).name, (hd key d hmem).2.2⟩,
        h.enums.mono fun _ _ he => he.name, hin, hmn,
        fun items hitems i hi => (hn items hitems i hi).2.2.2⟩⟩
  · rintro ⟨htidy, ⟨hce, hie, hme, hne⟩, ⟨hcl, hil, hml, hnl, hdl⟩, hnames⟩
    exact
      { callbackFunctions := fun key f hf =>
          { htidy.callbackFunctions key f hf with name := hnames.callbackFunctions key f hf }
        callbackInterfaces := Interface.eachEntry_followsAt_iff.2
          ⟨htidy.callbackInterfaces, hce, hcl, hnames.callbackInterfaces⟩
        dictionaries := fun key d hd =>
          { Dictionary.follows_iff.2
              ⟨htidy.dictionaries key d hd, hdl key d hd, (hnames.dictionaries key d hd).2⟩
            with name := (hnames.dictionaries key d hd).1 }
        enums := fun key e he => { htidy.enums key e he with name := hnames.enums key e he }
        interfaces := Interface.eachEntry_followsAt_iff.2
          ⟨htidy.interfaces, hie, hil, hnames.interfaces⟩
        mixins := Interface.eachEntry_followsAt_iff.2 ⟨htidy.mixins, hme, hml, hnames.mixins⟩
        namespaces := fun items hitems i hi => Interface.follows_iff.2
          ⟨htidy.namespaces items hitems i hi, hne items hitems i hi, hnl items hitems i hi,
            hnames.namespaces items hitems i hi⟩
        typedefs := htidy.typedefs
        extra := htidy.extra }

end Parts

/-! ## Names from keys -/

section Filling

variable {c : Convention}

theorem Interface.Follows.fillMemberNames {i : Interface} (h : i.Follows c.loose) :
    i.fillMemberNames.Follows c where
  constants := h.constants.map fun _ _ hx =>
    { hx with name := Convention.name_nameOr hx.name, value := hx.value, exposed := hx.exposed }
  methods := h.methods.map fun _ _ hx =>
    { hx with name := Convention.name_nameOr hx.name, exposed := hx.exposed }
  properties := h.properties.map fun _ _ hx =>
    { hx with name := Convention.name_nameOr hx.name, exposed := hx.exposed }
  constructor x hx := { h.constructor x hx with exposed := (h.constructor x hx).exposed }
  exposed := h.exposed
  overrideExposed := h.overrideExposed
  iterator := h.iterator
  extra := h.extra

theorem Interface.FollowsAt.fillNames {i : Interface} {key : String} (h : i.FollowsAt c.loose key) :
    (i.fillNames key).FollowsAt c key where
  toFollows := { h.toFollows.fillMemberNames with }
  name := Convention.name_nameOr h.name

theorem Dictionary.Follows.fillMemberNames {d : Dictionary} (h : d.Follows c.loose) :
    d.fillMemberNames.Follows c where
  members := h.members.map fun _ _ hx =>
    { hx with name := Convention.name_nameOr hx.name, default := hx.default }
  extra := h.extra

theorem Dictionary.FollowsAt.fillNames {d : Dictionary} {key : String}
    (h : d.FollowsAt c.loose key) : (d.fillNames key).FollowsAt c key where
  toFollows := { h.toFollows.fillMemberNames with }
  name := Convention.name_nameOr h.name

/-- **Filling in the names** makes up for those that are empty. -/
theorem Graph.Follows.fillNames {g : Graph} (h : g.Follows c.loose) : g.fillNames.Follows c where
  callbackFunctions := h.callbackFunctions.map fun _ _ hf =>
    { hf with name := Convention.name_nameOr hf.name }
  callbackInterfaces := h.callbackInterfaces.map fun _ _ hi => hi.fillNames
  dictionaries := h.dictionaries.map fun _ _ hd => hd.fillNames
  enums := h.enums.map fun _ _ he => { he with name := Convention.name_nameOr he.name }
  interfaces := h.interfaces.map fun _ _ hi => hi.fillNames
  mixins := h.mixins.map fun _ _ hi => hi.fillNames
  namespaces items hitems i hi := by
    obtain ⟨old, hold, rfl⟩ := Option.map_eq_some_iff.1 hitems
    obtain ⟨i, hmem, rfl⟩ := List.mem_map.1 hi
    exact (h.namespaces old hold i hmem).fillMemberNames
  typedefs := h.typedefs
  extra := h.extra

end Filling

/-- **Every graph that is read** is tidy, no value in it is null, and no name in it is left to be filled
in. -/
theorem Graph.follows_of_ofJson {j : Json} {g : Graph} (h : Graph.ofJson j = .ok g) :
    g.Follows .filled := by
  obtain ⟨raw, hraw, rfl⟩ := map_eq_ok_iff.1 h
  have hnames : raw.Named Convention.filled.loose.name :=
    Graph.named_of_forall Convention.name_loose_filled raw
  exact (Graph.follows_iff.2
    ⟨Graph.tidy_of_ofRawJson j raw hraw, fun _ _ => trivial, Graph.ne_null_of_ofRawJson j raw hraw,
      hnames⟩).fillNames

theorem Graph.tidy_of_ofJson {j : Json} {g : Graph} (h : Graph.ofJson j = .ok g) : g.Tidy :=
  (Graph.follows_iff.1 (Graph.follows_of_ofJson h)).1

/-- A graph that is read has its extra fields beside its fields. -/
theorem Graph.separateExtra_of_ofJson {j : Json} {g : Graph} (h : Graph.ofJson j = .ok g) :
    g.SeparateExtra :=
  (Graph.tidy_of_ofJson h).extra

/-! ## Written graphs -/

/-- A plain graph comes back from its written form. -/
theorem Graph.Follows.ofJson_toValue {g : Graph} (h : g.Follows .plain) :
    Graph.ofJson g.toValue = .ok g := by
  obtain ⟨htidy, hexposures, hliterals, hnames⟩ := Graph.follows_iff.1 h
  rw [Graph.ofJson, Graph.ofRawJson_toValue htidy (Graph.plain_of_exposures hexposures) hliterals]
  exact congrArg Except.ok (Graph.fillNames_eq_self_iff.2 hnames)

/-- A graph that is read is plain, if no context of an exposure holds a blank. -/
theorem Graph.follows_plain_of_ofJson {j : Json} {g : Graph} (h : Graph.ofJson j = .ok g)
    (hexposures : ∀ e ∈ g.exposures, e.Plain) : g.Follows .plain := by
  obtain ⟨htidy, -, hliterals, hnames⟩ := Graph.follows_iff.1 (Graph.follows_of_ofJson h)
  exact Graph.follows_iff.2 ⟨htidy, hexposures, hliterals, hnames⟩

end IdlDecls
