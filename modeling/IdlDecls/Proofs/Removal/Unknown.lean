import IdlDecls.Proofs.Model.Unknown
import IdlDecls.Proofs.Removal.Spared

/-!
# Fields without a meaning under removal

Pruning goes through the written form of a graph, so it sees fields without a meaning as it sees any
other field. One that a template spares (`Template.Spares`: it removes nothing in the value, not the
field itself and nothing around it) is found in the pruned value under the same keys; the items of
an array move up where items before them are removed (`Template.moved`). Each step down is followed
on its own (`Schema.child?_left`), and a path is as many steps (`Schema.extra?_left`). What is left
is read as any other file, which carries its fields over, and so a graph keeps its fields without a
meaning through reading, writing and removal (`Graph.extra_survives`).
-/

namespace IdlDecls

/-! ## Templates along a path -/

/-- What is one step down in a value. -/
def Json.child? : Json → Step → Option Json
  | .obj fields, .key key => Entries.get? fields key
  | .arr items, .index i => items[i]?
  | _, _ => none

namespace Template

/-- Whether an item of an array is left. -/
def keepsItem : Option Template → Json → Bool
  | none, _ => true
  | some (.names listed), item => !(item.identity?.any listed.contains)
  | some _, _ => false

/-- What a template says of a value one step down. No template goes into the items of an array: an
item is left as it is or removed. -/
def inside (template : Option Template) : Step → Json → Option Template
  | .key key, _ => template.bind (·.at? key)
  | .index _, item => if keepsItem template item then none else some .remove

/-- A template removes nothing of the value that a path leads to, and nothing on the way. -/
def Spares : Option Template → Json → List Step → Prop
  | template, j, [] => ∀ t ∈ template, t.Misses (fun _ => True) j
  | template, j, step :: path =>
    ∀ value ∈ j.child? step, Spares (inside template step value) value path

/-- The step that leads to the same value once the template has been applied. -/
def movedStep (template : Option Template) : Json → Step → Step
  | .arr items, .index i => .index ((items.take i).countP (keepsItem template))
  | _, step => step

/-- The path that leads to the same value once the template has been applied. -/
def moved : Option Template → Json → List Step → List Step
  | _, _, [] => []
  | template, j, step :: path =>
    match j.child? step with
    | none => step :: path
    | some value => movedStep template j step :: moved (inside template step value) value path

end Template

/-! ## Values that are spared -/

theorem Json.eq_of_pruneFields {entries : List (String × Template)} :
    ∀ {fields kept : List (String × Json)},
      (∀ key template value, Entries.get? entries key = some template → (key, value) ∈ fields →
        ∀ left, value.prune template = .ok left → left = some value) →
      pruneFields fields entries = .ok kept → kept = fields
  | [], kept, _, h => by
    cases h
    rfl
  | (key, value) :: rest, kept, hspared, h => by
    obtain ⟨left, rest', hleft, hrest, rfl⟩ := pruneFields_cons h
    have hkey : left = some value := by
      cases ht : Entries.get? entries key with
      | none => exact pruned_unsaid_iff.1 (ht ▸ hleft)
      | some template =>
        exact hspared key template value ht (List.mem_cons_self ..) left (by rwa [ht] at hleft)
    rw [hkey, eq_of_pruneFields (fun k t v ht hv => hspared k t v ht (List.mem_cons_of_mem _ hv)) hrest]
    rfl

/-- **Where a template finds nothing, it leaves the value as it is**, if it fits at all. -/
theorem Template.Misses.eq_of_prune {template : Template} {value : Json}
    (h : template.Misses (fun _ => True) value) :
    ∀ kept, value.prune template = .ok kept → kept = some value := by
  induction h with
  | @names listed value _ hnames =>
    intro kept hkept
    rw [Json.prune] at hkept
    obtain ⟨left, hleft, rfl⟩ := map_eq_ok_iff.1 hkept
    have hlistable : value.isListable = true := by
      cases value with
      | arr _ | obj _ => rfl
      | null | bool _ | num _ | str _ => cases hleft
    rw [Json.removeNames_eq_self hlistable hnames] at hleft
    rw [Except.ok.inj hleft]
  | nested _ ih =>
    intro kept hkept
    obtain ⟨left, hleft, rfl⟩ := map_eq_ok_iff.1 hkept
    rw [Json.eq_of_pruneFields ih hleft]

theorem Template.Spares.eq_of_pruned {template : Option Template} {value : Json} {kept : Option Json}
    (h : Template.Spares template value []) (hkept : Pruned template (some value) kept) :
    kept = some value := by
  cases template with
  | none => exact pruned_unsaid_iff.1 hkept
  | some template => exact (h template rfl).eq_of_prune kept hkept

/-! ## One step down -/

/-- Items that a filter keeps move up by the items before them that it takes away. -/
theorem getElem?_filter_countP {α : Type} {p : α → Bool} {a : α} (hp : p a = true) :
    ∀ {l : List α} {i : Nat}, l[i]? = some a → (l.filter p)[(l.take i).countP p]? = some a
  | [], i, h => by simp at h
  | b :: l, 0, h => by
    obtain rfl : b = a := by simpa using h
    simp [hp]
  | b :: l, i + 1, h => by
    have ih := getElem?_filter_countP hp (l := l) (i := i) (by simpa using h)
    by_cases hb : p b = true
    · simpa [hb] using ih
    · simpa [hb] using ih

/-- What is left of an array of which an item is left. -/
theorem Pruned.items {template : Option Template} {items : List Json} {kept : Option Json}
    (h : Pruned template (some (.arr items)) kept) {item : Json}
    (hitem : Template.keepsItem template item = true) :
    kept = some (.arr (items.filter (Template.keepsItem template))) := by
  cases template with
  | none =>
    rw [pruned_unsaid_iff.1 h]
    exact congrArg (fun l => some (Json.arr l)) (List.filter_eq_self.2 fun _ _ => rfl).symm
  | some template =>
    cases template with
    | remove => cases hitem
    | names listed => exact (Except.ok.inj h).symm
    | nested entries => cases hitem

namespace Schema

variable {schema : Schema} {meaning : Option Schema} {step : Step} {j value : Json}

/-- Under a key a written value is an object with ascending keys, and whatever stands under the key
there stands at the same place of the schema. -/
theorem child?_key {key : String} (h : schema.child? .written (.key key) j = some (meaning, value)) :
    ∃ fields, j = .obj fields ∧ Entries.Ascending fields ∧ Entries.get? fields key = some value ∧
      ∀ left l, Entries.Ascending left → Entries.get? left key = some l →
        schema.child? .written (.key key) (.obj left) = some (meaning, l) := by
  cases schema with
  | record keys parts =>
    obtain ⟨fields, hfields, hchild⟩ := Option.bind_eq_some_iff.1 h
    obtain ⟨rfl, hasc⟩ := Form.fields?_written_eq_some_iff.1 hfields
    refine ⟨fields, rfl, hasc, ?_⟩
    simp only [child?]
    by_cases hkey : key ∈ keys
    · rw [if_pos hkey] at hchild
      obtain ⟨part, hpart, hchild⟩ := Option.bind_eq_some_iff.1 hchild
      obtain ⟨value, hvalue, heq⟩ := Option.map_eq_some_iff.1 hchild
      cases heq
      refine ⟨hvalue, fun left l hleft hl => ?_⟩
      rw [Form.fields?_written hleft, Option.bind_some, if_pos hkey, hpart, Option.bind_some, hl]
      rfl
    · rw [if_neg hkey, last?_of_ascending hasc] at hchild
      obtain ⟨value, hvalue, heq⟩ := Option.map_eq_some_iff.1 hchild
      cases heq
      refine ⟨hvalue, fun left l hleft hl => ?_⟩
      rw [Form.fields?_written hleft, Option.bind_some, if_neg hkey, last?_of_ascending hleft, hl]
      rfl
  | wrapper name content =>
    simp only [child?, Form.inside?_written] at h ⊢
    by_cases hkey : key = name
    · subst hkey
      rw [if_pos rfl] at h
      obtain ⟨value, hvalue, heq⟩ := Option.map_eq_some_iff.1 h
      cases heq
      obtain ⟨fields, hfields, hvalue⟩ := Option.bind_eq_some_iff.1 hvalue
      obtain ⟨rfl, hasc⟩ := Form.fields?_written_eq_some_iff.1 hfields
      rw [Form.fields?_written hasc, Option.bind_some] at hvalue
      refine ⟨fields, rfl, hasc, hvalue, fun left l hleft hl => ?_⟩
      rw [if_pos rfl, Form.fields?_written hleft, Option.bind_some, hl]
      rfl
    · rw [if_neg hkey] at h
      cases h
  | map entry =>
    obtain ⟨fields, hfields, hchild⟩ := Option.bind_eq_some_iff.1 h
    obtain ⟨rfl, hasc⟩ := Form.fields?_written_eq_some_iff.1 hfields
    rw [last?_of_ascending hasc] at hchild
    obtain ⟨value, hvalue, heq⟩ := Option.map_eq_some_iff.1 hchild
    cases heq
    refine ⟨fields, rfl, hasc, hvalue, fun left l hleft hl => ?_⟩
    rw [child?, Form.fields?_written hleft, Option.bind_some, last?_of_ascending hleft, hl]
    rfl
  | list item => cases h

/-- Under an index a written value is an array. -/
theorem child?_index {i : Nat} (h : schema.child? .written (.index i) j = some (meaning, value)) :
    ∃ item items, schema = .list item ∧ meaning = some item ∧ j = .arr items ∧
      items[i]? = some value := by
  cases schema with
  | list item =>
    cases j with
    | arr items =>
      obtain ⟨value, hvalue, heq⟩ := Option.map_eq_some_iff.1 h
      cases heq
      exact ⟨item, items, rfl, rfl, rfl, hvalue⟩
    | null | bool _ | num _ | str _ | obj _ => cases h
  | record | wrapper | map => cases h

/-- A step down leads to what is there. -/
theorem child?_value (h : schema.child? .written step j = some (meaning, value)) :
    j.child? step = some value := by
  cases step with
  | key key =>
    obtain ⟨fields, rfl, -, hvalue, -⟩ := child?_key h
    exact hvalue
  | index i =>
    obtain ⟨item, items, -, -, rfl, hvalue⟩ := child?_index h
    exact hvalue

/-- **One step down a pruned value stands what is left of what stood there**, at the same place of
the schema. -/
theorem child?_left {template : Option Template} {kept : Option Json} {P : Json → Prop}
    (h : Pruned template (some j) kept)
    (hchild : schema.child? .written step j = some (meaning, value))
    (hP : ∀ left, Pruned (Template.inside template step value) (some value) left →
      ∃ l, left = some l ∧ P l) :
    ∃ left, kept = some left ∧ ∃ l,
      schema.child? .written (Template.movedStep template j step) left = some (meaning, l) ∧ P l := by
  cases step with
  | key key =>
    obtain ⟨fields, rfl, hasc, hvalue, hplace⟩ := child?_key hchild
    obtain ⟨left, hleft, hkept, hfields⟩ := Pruned.field hasc h
    obtain ⟨l, hl, hPl⟩ := hP _ (hvalue ▸ hfields key)
    rcases hkept with rfl | ⟨-, rfl⟩
    · exact ⟨_, rfl, l, hplace left l hleft hl, hPl⟩
    · cases hl
  | index i =>
    obtain ⟨item, items, rfl, rfl, rfl, hvalue⟩ := child?_index hchild
    by_cases hkeeps : Template.keepsItem template value = true
    · obtain ⟨l, hl, hPl⟩ := hP (some value) (by rw [Template.inside, if_pos hkeeps]; rfl)
      cases hl
      refine ⟨_, h.items hkeeps, value, ?_, hPl⟩
      rw [Template.movedStep, child?, getElem?_filter_countP hkeeps hvalue]
      rfl
    · obtain ⟨l, hl, -⟩ := hP none (by rw [Template.inside, if_neg hkeeps]; exact pruned_remove_iff.2 rfl)
      cases hl

/-- What is held as it is written is held as it may be read. -/
theorem child?_given_of_written (h : schema.child? .written step j = some (meaning, value)) :
    schema.child? .given step j = some (meaning, value) := by
  cases step with
  | key key =>
    obtain ⟨fields, rfl, hasc, -⟩ := child?_key h
    have hinside : ∀ name, Form.inside? name .given (.obj fields) =
        Form.inside? name .written (.obj fields) := by
      intro name
      rw [Form.inside?_written, Form.fields?_written hasc]
      rfl
    cases schema with
    | record | map => simpa only [child?, Form.fields?_given, Form.fields?_written hasc] using h
    | wrapper name content => simpa only [child?, hinside] using h
    | list item => cases h
  | index i =>
    obtain ⟨item, items, rfl, rfl, rfl, -⟩ := child?_index h
    exact h

/-! ## Paths -/

theorem extra?_given_of_written : ∀ {path : List Step} {meaning : Option Schema} {j value : Json},
    extra? .written path meaning j = some value → extra? .given path meaning j = some value
  | [], none, j, value, h => h
  | step :: path, some schema, j, value, h => by
    obtain ⟨⟨part, inner⟩, hchild, hinner⟩ := Option.bind_eq_some_iff.1 h
    rw [extra?_cons, child?_given_of_written hchild]
    exact extra?_given_of_written hinner

/-- **A value without a meaning that is spared is found where its path has moved to.** The induction
follows the path, with one step down for each of its steps. -/
theorem extra?_left : ∀ {path : List Step} {meaning : Option Schema} {template : Option Template}
    {j value : Json} {kept : Option Json}, Pruned template (some j) kept →
      extra? .written path meaning j = some value → Template.Spares template j path →
      ∃ left, kept = some left ∧
        extra? .written (Template.moved template j path) meaning left = some value
  | [], none, template, j, value, kept, h, hvalue, hspares =>
    ⟨j, Template.Spares.eq_of_pruned hspares h, hvalue⟩
  | step :: path, some schema, template, j, value, kept, h, hvalue, hspares => by
    obtain ⟨⟨part, inner⟩, hchild, hinner⟩ := Option.bind_eq_some_iff.1 hvalue
    have hthere : j.child? step = some inner := child?_value hchild
    have hinside : ∀ left, Pruned (Template.inside template step inner) (some inner) left →
        ∃ l, left = some l ∧
          extra? .written (Template.moved (Template.inside template step inner) inner path) part l =
            some value :=
      fun left hleft => extra?_left hleft hinner (hspares inner hthere)
    obtain ⟨left, rfl, l, hl, hfound⟩ := child?_left h hchild hinside
    refine ⟨left, rfl, ?_⟩
    rw [Template.moved, hthere, extra?_cons, hl]
    exact hfound

end Schema

/-! ## Graphs -/

/-- **Fields without a meaning survive.** What is written of a graph that was read has the same ones
under the same paths, and no others; and after a removal that spares one of them it is still there,
unchanged. -/
theorem Graph.extra_survives {v : Json} {g : Graph} (h : Graph.ofJson v = .ok g) :
    (∀ path, Schema.extra? .given path (some Graph.schema) v =
      Schema.extra? .written path (some Graph.schema) g.toValue) ∧
    ∀ template pruned, g.prune template = .ok pruned →
      ∀ path value, Schema.extra? .given path (some Graph.schema) v = some value →
        Template.Spares (some template) g.toValue path →
        Schema.extra? .written (Template.moved (some template) g.toValue path) (some Graph.schema)
          pruned.toValue = some value := by
  have hcarried := Graph.carries v g h
  refine ⟨hcarried, fun template pruned hpruned path value hvalue hspares => ?_⟩
  rw [Graph.prune] at hpruned
  obtain ⟨kept, hkept, hread⟩ := bind_eq_ok_iff.1 hpruned
  rw [mapError_eq_ok_iff] at hkept hread
  have hwritten : Schema.extra? .written path (some Graph.schema) g.toValue = some value :=
    (hcarried path).symm.trans hvalue
  have hleft : Pruned (some template) (some g.toValue) kept := hkept
  obtain ⟨left, rfl, hfound⟩ := Schema.extra?_left hleft hwritten hspares
  exact (Graph.carries left pruned hread _).symm.trans (Schema.extra?_given_of_written hfound)

/-- A data file with fields that mean nothing: in a collection given as an array, in a namespace
behind another one, and beside both. -/
def quarryJson : Json :=
  .obj [("site", .obj [("owner", .null)]),
    ("interfaces", .arr [.obj [("Quarry", .obj [("depth", .null)])]]),
    ("namespaces", .arr [.obj [("name", .str "Winch")],
      .obj [("name", .str "Crane"), ("load", .arr [.num (.int 3), .null])]])]

/-- The second of the namespaces. -/
def craneNamespace : Interface where
  name := "Crane"
  extra := .ofList [("load", .arr [.num (.int 3), .null])]

/-- The graph of the data file. -/
def quarryGraph : Graph where
  interfaces := some (.ofList [("Quarry", { name := "Quarry", extra := .ofList [("depth", .null)] })])
  namespaces := some [{ name := "Winch" }, craneNamespace]
  extra := .ofList [("site", .obj [("owner", .null)])]

/-- A template for the first namespace, and for a key that the site does not have. -/
def quarryTemplate : Template :=
  .nested [("namespaces", .names ["Winch"]), ("site", .nested [("area", .remove)])]

theorem quarryGraph_toValue : quarryGraph.toValue = .obj [
    ("interfaces", .obj [("interface", .obj [("Quarry",
      .obj [("depth", .null), ("name", .str "Quarry")])])]),
    ("namespaces", .arr [.obj [("name", .str "Winch")],
      .obj [("load", .arr [.num (.int 3), .null]), ("name", .str "Crane")]]),
    ("site", .obj [("owner", .null)])] := by
  decide +kernel

/-- The fields are written where they were read, and those of the second namespace are those of the
first when that is removed. -/
theorem quarryGraph_survives :
    Graph.ofJson quarryJson = .ok quarryGraph ∧
      quarryGraph.prune quarryTemplate =
        .ok { quarryGraph with namespaces := some [craneNamespace] } ∧
      Schema.extra? .written [.key "interfaces", .key "interface", .key "Quarry", .key "depth"]
        (some Graph.schema) quarryGraph.toValue = some .null ∧
      Schema.extra? .written [.key "namespaces", .index 0, .key "load"] (some Graph.schema)
        ({ quarryGraph with namespaces := some [craneNamespace] } : Graph).toValue =
          some (.arr [.num (.int 3), .null]) ∧
      Schema.extra? .written [.key "site"] (some Graph.schema)
        ({ quarryGraph with namespaces := some [craneNamespace] } : Graph).toValue =
          some (.obj [("owner", .null)]) := by
  have hread : Graph.ofJson quarryJson = .ok quarryGraph := by decide +kernel
  have hpruned : quarryGraph.prune quarryTemplate =
      .ok { quarryGraph with namespaces := some [craneNamespace] } := by decide +kernel
  obtain ⟨hwritten, hleft⟩ := Graph.extra_survives hread
  have hload : Template.Spares (some quarryTemplate) quarryGraph.toValue
      [.key "namespaces", .index 1, .key "load"] := by
    rw [quarryGraph_toValue]
    simp [quarryTemplate, Template.Spares, Json.child?, Entries.get?, Template.inside, Template.at?,
      Template.keepsItem, Json.identity?, Json.nonemptyText?]
  have hsite : Template.Spares (some quarryTemplate) quarryGraph.toValue [.key "site"] := by
    rw [quarryGraph_toValue]
    simp only [quarryTemplate, Template.Spares, Json.child?, Entries.get?, Template.inside,
      Template.at?, Option.bind_some, Option.mem_def]
    rintro value hvalue template htemplate
    cases hvalue
    cases htemplate
    refine .nested fun key t value ht hv => ?_
    cases List.mem_singleton.1 hv
    cases ht
  have hloadLeft := hleft _ _ hpruned _ (.arr [.num (.int 3), .null]) (by decide +kernel) hload
  have hsiteLeft := hleft _ _ hpruned _ (.obj [("owner", .null)]) (by decide +kernel) hsite
  rw [quarryGraph_toValue] at hloadLeft hsiteLeft
  exact ⟨hread, hpruned, (hwritten _).symm.trans (by decide +kernel), hloadLeft, hsiteLeft⟩

end IdlDecls
