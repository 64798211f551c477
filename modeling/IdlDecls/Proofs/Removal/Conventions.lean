import IdlDecls.Proofs.Model.Conventions

/-!
# Pruning under a convention

What a pruned graph holds was read of what pruning left of a written one. `LeftOf` says that of a
single value, and it is all that is left to say of values inside: an entry of the pruned collection is
left of the entry with its key, a name is left as it was or lost, and an exposure is left as it reads
in its written form. Lost names are filled in again, so a graph that follows a convention still does
after any template (`Graph.Follows.prune`).
-/

namespace IdlDecls

open Read

variable {α : Type}

/-! ## Values that are left -/

/-- The second value can be read of what some template leaves of the first one's written form. -/
def LeftOf (read : Json → Reading α) (write : α → Json) (value left : α) : Prop :=
  ∃ template kept, Pruned template (some (write value)) (some kept) ∧ read kept = .ok left

/-- A text is left as a whole. -/
theorem eq_of_pruned_text {template : Option Template} {s : String} {kept : Json}
    (h : Pruned template (some (.str s)) (some kept)) : kept = .str s := by
  cases template with
  | none => exact Option.some.inj (pruned_unsaid_iff.1 h)
  | some template =>
    cases template with
    | remove => cases pruned_remove_iff.1 h
    | names | nested => cases h

theorem eq_of_leftOf_text {s left : String} (h : LeftOf text .str s left) : left = s := by
  obtain ⟨template, kept, hpruned, hread⟩ := h
  rw [eq_of_pruned_text hpruned] at hread
  exact (pure_eq_ok_iff.1 hread).symm

theorem eq_of_leftOf_exposure {e left : Exposure}
    (h : LeftOf Read.exposure Write.exposure e left) : left = .ofText e.text := by
  obtain ⟨template, kept, hpruned, hread⟩ := h
  rw [eq_of_pruned_text hpruned] at hread
  exact (pure_eq_ok_iff.1 hread).symm

/-! ## Fields that are left -/

section Fields

variable {β : Type} {read : Json → Reading α} {write : α → Json} {template : Option Template}
  {left : List (String × Json)} {field : String}

/-- A field with a default has its default or a value that is left. -/
theorem orElse_left {default value result : α}
    (h : Pruned template (some (write value)) (Entries.get? left field))
    (hread : Read.orElse default read left field = .ok result) :
    result = default ∨ LeftOf read write value result := by
  rw [orElse] at hread
  generalize Entries.get? left field = kept? at h hread
  cases kept? with
  | none => exact Or.inl (pure_eq_ok_iff.1 hread).symm
  | some kept => exact Or.inr ⟨template, kept, h, hread⟩

/-- A field that may be absent has a value only if one is left. -/
theorem optional_left {value result : Option α}
    (h : Pruned template (value.map write) (Entries.get? left field))
    (hread : Read.optional read left field = .ok result) :
    ∀ x ∈ result, ∃ v ∈ value, LeftOf read write v x := by
  rw [Read.optional] at hread
  split at hread
  · cases pure_eq_ok_iff.1 hread
    rintro _ ⟨⟩
  · cases pure_eq_ok_iff.1 hread
    rintro _ ⟨⟩
  · rename_i kept _ hkept
    obtain ⟨x, hx, rfl⟩ := map_eq_ok_iff.1 hread
    rintro _ ⟨⟩
    rw [hkept] at h
    cases value with
    | none => cases pruned_absent_iff.1 h
    | some v => exact ⟨v, rfl, template, kept, h, hx⟩

/-- What is left of the entries is left of the collection. -/
theorem EachEntry.leftOf {P Q : String → α → Prop} {entries : String} {c result : Option (Keyed α)}
    (hc : EachEntry P c) (hentry : ∀ key v x, P key v → LeftOf read write v x → Q key x)
    (h : Pruned template (c.map (Write.collection .ascending entries write))
      (Entries.get? left field))
    (hread : Read.optional (Read.collection entries read) left field = .ok result) :
    EachEntry Q result := by
  intro key x hx
  obtain ⟨kept, hascending, hheld, hkeys⟩ := pruned_collection h
  have hentries := readAs_of_collection hread hheld hascending key
  have hkey := hkeys key
  rw [hx] at hentries
  cases hj : Entries.get? kept key with
  | none =>
    rw [hj] at hentries
    cases hentries
  | some j =>
    rw [hj] at hentries hkey
    obtain ⟨_, hread, ⟨⟩⟩ := hentries
    cases hv : lookup? c key with
    | none =>
      rw [hv] at hkey
      cases pruned_absent_iff.1 hkey
    | some v =>
      rw [hv] at hkey
      exact hentry key v x (hc key v hv) ⟨_, j, hkey, hread⟩

/-- Items of a list are left as they were written or not at all. -/
theorem list_left {value result : Option (List α)}
    (h : Pruned template (value.map fun items => .arr (items.map write)) (Entries.get? left field))
    (hread : Read.optional (list read) left field = .ok result) :
    ∀ kept ∈ result, ∀ x ∈ kept, ∃ items ∈ value, ∃ v ∈ items, LeftOf read write v x := by
  intro values hvalues x hx
  obtain ⟨items, hitems, said, kept, hkept, hvalues⟩ := optional_left h hread values hvalues
  obtain ⟨written, rfl, hwritten⟩ : ∃ written, kept = .arr written ∧
      ∀ j ∈ written, ∃ v ∈ items, write v = j := by
    cases said with
    | none =>
      cases pruned_unsaid_iff.1 hkept
      exact ⟨_, rfl, fun j hj => List.mem_map.1 hj⟩
    | some said =>
      cases said with
      | remove => cases pruned_remove_iff.1 hkept
      | names listed =>
        cases hkept
        exact ⟨_, rfl, fun j hj => List.mem_map.1 (List.mem_filter.1 hj).1⟩
      | nested => cases hkept
  obtain ⟨j, hj, hread⟩ := exists_of_forall₂ (mapM_eq_ok_iff.1 hvalues) x hx
  obtain ⟨v, hv, rfl⟩ := hwritten j hj
  exact ⟨items, hitems, v, hv, none, write v, pruned_unsaid_iff.2 rfl, hread⟩

end Fields

/-- **A written record is left field by field.** -/
theorem Pruned.written {template : Option Template} {keys : List String} {extra : Extra}
    (hextra : extra.Beside keys) {pieces : List (String × Json)} {kept : Json}
    (h : Pruned template (some (Layout.ascending (pieces ++ extra.entries))) (some kept)) :
    ∃ left, kept = .obj left ∧ ∀ key ∈ keys,
      Pruned (template.bind (·.at? key)) (Entries.last? pieces key) (Entries.get? left key) := by
  obtain ⟨left, -, hleft, hfields⟩ := Pruned.field (Entries.ascending_sorted _) h
  refine ⟨left, ?_, fun key hkey => get?_written hextra hkey pieces ▸ hfields key⟩
  rcases hleft with hleft | ⟨hleft, -⟩
  · exact Option.some.inj hleft
  · cases hleft

/-! ## Names and exposures -/

section Conventions

variable {c : Convention} {template : Option Template} {left : List (String × Json)}
  {field : String}

theorem Convention.name_left {key name result : String} (hname : c.name key name)
    (h : Pruned template (some (.str name)) (Entries.get? left field))
    (hread : orElse "" text left field = .ok result) : c.loose.name key result := by
  rcases orElse_left h hread with hempty | hleft
  · exact Or.inl hempty
  · exact Or.inr (eq_of_leftOf_text hleft ▸ hname)

theorem Convention.exposure_left {value result : Option Exposure}
    (hvalue : ∀ e ∈ value, c.exposure e)
    (h : Pruned template (value.map Write.exposure) (Entries.get? left field))
    (hread : Read.optional Read.exposure left field = .ok result) : ∀ e ∈ result, c.exposure e := by
  intro e he
  obtain ⟨v, hv, hleft⟩ := optional_left h hread e he
  exact eq_of_leftOf_exposure hleft ▸ c.reread (hvalue v hv)

/-! ## Members -/

theorem Constant.Follows.leftOf {key : String} {x y : Constant} (hx : x.Follows c key)
    (h : LeftOf Constant.ofJson (Constant.toJson .ascending) x y) : y.Follows c.loose key := by
  obtain ⟨template, kept, hpruned, hread⟩ := h
  obtain ⟨left, rfl, hleft⟩ := hpruned.written hx.extra
  have htidy := Constant.tidy_of_ofJson _ _ hread
  simp only [Constant.ofJson, bind_eq_ok_iff, pure_eq_ok_iff] at hread
  obtain ⟨_, hfields, _, -, exposed, hexposed, name, hname, value, hvalue, _, -, rfl⟩ := hread
  cases pure_eq_ok_iff.1 hfields
  exact
    { htidy with
      name := Convention.name_left hx.name (by simpa using hleft "name" (by decide)) hname
      value := fun j hj => c.literal_of_ne_null (ne_null_of_optional hvalue j hj)
      exposed := Convention.exposure_left hx.exposed (by simpa using hleft "exposed" (by decide))
        hexposed }

theorem Method.Follows.leftOf {key : String} {m n : Method} (hm : m.Follows c key)
    (h : LeftOf Method.ofJson (Method.toJson .ascending) m n) : n.Follows c.loose key := by
  obtain ⟨template, kept, hpruned, hread⟩ := h
  obtain ⟨left, rfl, hleft⟩ := hpruned.written hm.extra
  have htidy := Method.tidy_of_ofJson _ _ hread
  simp only [Method.ofJson, bind_eq_ok_iff, pure_eq_ok_iff] at hread
  obtain ⟨_, hfields, _, -, _, -, exposed, hexposed, name, hname, _, -, _, -, rfl⟩ := hread
  cases pure_eq_ok_iff.1 hfields
  exact
    { htidy with
      name := Convention.name_left hm.name (by simpa using hleft "name" (by decide)) hname
      exposed := Convention.exposure_left hm.exposed (by simpa using hleft "exposed" (by decide))
        hexposed }

theorem Property.Follows.leftOf {key : String} {p q : Property} (hp : p.Follows c key)
    (h : LeftOf Property.ofJson (Property.toJson .ascending) p q) : q.Follows c.loose key := by
  obtain ⟨template, kept, hpruned, hread⟩ := h
  obtain ⟨left, rfl, hleft⟩ := hpruned.written hp.extra
  have htidy := Property.tidy_of_ofJson _ _ hread
  simp only [Property.ofJson, bind_eq_ok_iff, pure_eq_ok_iff] at hread
  obtain ⟨_, hfields, _, -, _, -, exposed, hexposed, name, hname, _, -, _, -, _, -, rfl⟩ := hread
  cases pure_eq_ok_iff.1 hfields
  exact
    { htidy with
      name := Convention.name_left hp.name (by simpa using hleft "name" (by decide)) hname
      exposed := Convention.exposure_left hp.exposed (by simpa using hleft "exposed" (by decide))
        hexposed }

theorem Constructor.Follows.leftOf {x y : Constructor} (hx : x.Follows c)
    (h : LeftOf Constructor.ofJson (Constructor.toJson .ascending) x y) : y.Follows c.loose := by
  obtain ⟨template, kept, hpruned, hread⟩ := h
  obtain ⟨left, rfl, hleft⟩ := hpruned.written hx.extra
  have htidy := Constructor.tidy_of_ofJson _ _ hread
  simp only [Constructor.ofJson, bind_eq_ok_iff, pure_eq_ok_iff] at hread
  obtain ⟨_, hfields, _, -, exposed, hexposed, _, -, rfl⟩ := hread
  cases pure_eq_ok_iff.1 hfields
  exact
    { htidy with
      exposed := Convention.exposure_left hx.exposed (by simpa using hleft "exposed" (by decide))
        hexposed }

theorem Member.Follows.leftOf {key : String} {m n : Member} (hm : m.Follows c key)
    (h : LeftOf Member.ofJson (Member.toJson .ascending) m n) : n.Follows c.loose key := by
  obtain ⟨template, kept, hpruned, hread⟩ := h
  obtain ⟨left, rfl, hleft⟩ := hpruned.written hm.extra
  have htidy := Member.tidy_of_ofJson _ _ hread
  simp only [Member.ofJson, bind_eq_ok_iff, pure_eq_ok_iff] at hread
  obtain ⟨_, hfields, _, -, default, hdefault, name, hname, _, -, _, -, rfl⟩ := hread
  cases pure_eq_ok_iff.1 hfields
  exact
    { htidy with
      name := Convention.name_left hm.name (by simpa using hleft "name" (by decide)) hname
      default := fun j hj => c.literal_of_ne_null (ne_null_of_optional hdefault j hj) }

/-! ## Definitions -/

theorem Interface.Follows.leftOf {i j : Interface} (hi : i.Follows c)
    (h : LeftOf Interface.ofJson (Interface.toJson .ascending) i j) : j.Follows c.loose := by
  obtain ⟨template, kept, hpruned, hread⟩ := h
  obtain ⟨left, rfl, hleft⟩ := hpruned.written hi.extra
  have htidy := Interface.tidy_of_ofJson _ _ hread
  simp only [Interface.ofJson, bind_eq_ok_iff, pure_eq_ok_iff] at hread
  obtain ⟨_, hfields, _, -, constants, hconstants, constructor, hconstructor, _, -, exposed, hexposed,
    _, -, _, -, _, -, methods, hmethods, _, -, overrideExposed, hoverride, properties, hproperties,
    rfl⟩ := hread
  cases pure_eq_ok_iff.1 hfields
  refine
    { constants := hi.constants.leftOf (fun _ _ _ => Constant.Follows.leftOf)
        (by simpa using hleft "constants" (by decide)) hconstants
      methods := hi.methods.leftOf (fun _ _ _ => Method.Follows.leftOf)
        (by simpa using hleft "methods" (by decide)) hmethods
      properties := hi.properties.leftOf (fun _ _ _ => Property.Follows.leftOf)
        (by simpa using hleft "properties" (by decide)) hproperties
      constructor := fun y hy => ?_
      exposed := Convention.exposure_left hi.exposed (by simpa using hleft "exposed" (by decide))
        hexposed
      overrideExposed := Convention.exposure_left hi.overrideExposed
        (by simpa using hleft "override-exposed" (by decide)) hoverride
      iterator := htidy.iterator
      extra := htidy.extra }
  have hwritten : Pruned (template.bind (·.at? "constructor"))
      (i.constructor.map (Constructor.toJson .ascending)) (Entries.get? left "constructor") := by
    simpa using hleft "constructor" (by decide)
  obtain ⟨x, hx, hxy⟩ := optional_left hwritten hconstructor y hy
  exact (hi.constructor x hx).leftOf hxy

theorem Interface.FollowsAt.leftOf {key : String} {i j : Interface} (hi : i.FollowsAt c key)
    (h : LeftOf Interface.ofJson (Interface.toJson .ascending) i j) : j.FollowsAt c.loose key := by
  refine { hi.toFollows.leftOf h with name := ?_ }
  obtain ⟨template, kept, hpruned, hread⟩ := h
  obtain ⟨left, rfl, hleft⟩ := hpruned.written hi.extra
  simp only [Interface.ofJson, bind_eq_ok_iff, pure_eq_ok_iff] at hread
  obtain ⟨_, hfields, _, -, _, -, _, -, _, -, _, -, _, -, _, -, _, -, _, -, name, hname, _, -, _, -,
    rfl⟩ := hread
  cases pure_eq_ok_iff.1 hfields
  exact Convention.name_left hi.name (by simpa using hleft "name" (by decide)) hname

theorem Dictionary.FollowsAt.leftOf {key : String} {d e : Dictionary} (hd : d.FollowsAt c key)
    (h : LeftOf Dictionary.ofJson (Dictionary.toJson .ascending) d e) : e.FollowsAt c.loose key := by
  obtain ⟨template, kept, hpruned, hread⟩ := h
  obtain ⟨left, rfl, hleft⟩ := hpruned.written hd.extra
  have htidy := Dictionary.tidy_of_ofJson _ _ hread
  simp only [Dictionary.ofJson, bind_eq_ok_iff, pure_eq_ok_iff] at hread
  obtain ⟨_, hfields, _, -, _, -, members, hmembers, name, hname, rfl⟩ := hread
  cases pure_eq_ok_iff.1 hfields
  exact
    { members := hd.members.leftOf (fun _ _ _ => Member.Follows.leftOf)
        (by simpa using hleft "members" (by decide)) hmembers
      extra := htidy.extra
      name := Convention.name_left hd.name (by simpa using hleft "name" (by decide)) hname }

theorem Enumeration.FollowsAt.leftOf {key : String} {e f : Enumeration} (he : e.FollowsAt c key)
    (h : LeftOf Enumeration.ofJson (Enumeration.toJson .ascending) e f) :
    f.FollowsAt c.loose key := by
  obtain ⟨template, kept, hpruned, hread⟩ := h
  obtain ⟨left, rfl, hleft⟩ := hpruned.written he.extra
  have htidy := Enumeration.tidy_of_ofJson _ _ hread
  simp only [Enumeration.ofJson, bind_eq_ok_iff, pure_eq_ok_iff] at hread
  obtain ⟨_, hfields, _, -, name, hname, _, -, rfl⟩ := hread
  cases pure_eq_ok_iff.1 hfields
  exact
    { htidy with
      name := Convention.name_left he.name (by simpa using hleft "name" (by decide)) hname }

theorem CallbackFunction.FollowsAt.leftOf {key : String} {f f' : CallbackFunction}
    (hf : f.FollowsAt c key)
    (h : LeftOf CallbackFunction.ofJson (CallbackFunction.toJson .ascending) f f') :
    f'.FollowsAt c.loose key := by
  obtain ⟨template, kept, hpruned, hread⟩ := h
  obtain ⟨left, rfl, hleft⟩ := hpruned.written hf.extra
  have htidy := CallbackFunction.tidy_of_ofJson _ _ hread
  simp only [CallbackFunction.ofJson, bind_eq_ok_iff, pure_eq_ok_iff] at hread
  obtain ⟨_, hfields, _, -, name, hname, _, -, rfl⟩ := hread
  cases pure_eq_ok_iff.1 hfields
  exact
    { htidy with
      name := Convention.name_left hf.name (by simpa using hleft "name" (by decide)) hname }

/-! ## Graphs -/

/-- **Pruning keeps to a convention**, whatever it removes: the names that it takes away come back
from the keys. -/
theorem Graph.Follows.prune {g pruned : Graph} {template : Template} (hg : g.Follows c)
    (h : g.prune template = .ok pruned) : pruned.Follows c := by
  obtain ⟨left, raw, hfields, hraw, rfl⟩ := Graph.prune_raw h rfl (Entries.ascending_sorted _)
  have hleft := fun key (hkey : key ∈ Graph.fieldKeys) =>
    get?_written hg.extra hkey _ ▸ hfields key
  have htidy := Graph.tidy_of_ofRawJson _ _ hraw
  simp only [Graph.ofRawJson, bind_eq_ok_iff, pure_eq_ok_iff] at hraw
  obtain ⟨_, hobject, functions, hfunctions, callbacks, hcallbacks, dictionaries, hdictionaries, enums,
    henums, interfaces, hinterfaces, mixins, hmixins, namespaces, hnamespaces, typedefs, htypedefs,
    rfl⟩ := hraw
  cases pure_eq_ok_iff.1 hobject
  refine Graph.Follows.fillNames
    { callbackFunctions := hg.callbackFunctions.leftOf
        (fun _ _ _ => CallbackFunction.FollowsAt.leftOf)
        (by simpa using hleft "callback-functions" (by decide)) hfunctions
      callbackInterfaces := hg.callbackInterfaces.leftOf (fun _ _ _ => Interface.FollowsAt.leftOf)
        (by simpa using hleft "callback-interfaces" (by decide)) hcallbacks
      dictionaries := hg.dictionaries.leftOf (fun _ _ _ => Dictionary.FollowsAt.leftOf)
        (by simpa using hleft "dictionaries" (by decide)) hdictionaries
      enums := hg.enums.leftOf (fun _ _ _ => Enumeration.FollowsAt.leftOf)
        (by simpa using hleft "enums" (by decide)) henums
      interfaces := hg.interfaces.leftOf (fun _ _ _ => Interface.FollowsAt.leftOf)
        (by simpa using hleft "interfaces" (by decide)) hinterfaces
      mixins := hg.mixins.leftOf (fun _ _ _ => Interface.FollowsAt.leftOf)
        (by simpa using hleft "mixins" (by decide)) hmixins
      namespaces := fun items hitems i hi => ?_
      typedefs := htidy.typedefs
      extra := htidy.extra }
  have hwritten : Pruned (template.at? "namespaces")
      (g.namespaces.map fun items => .arr (items.map (Interface.toJson .ascending)))
      (Entries.get? left "namespaces") := by
    simpa using hleft "namespaces" (by decide)
  obtain ⟨old, hold, v, hv, hvi⟩ := list_left hwritten hnamespaces items hitems i hi
  exact (hg.namespaces old hold v hv).leftOf hvi

end Conventions

end IdlDecls
