import IdlDecls.Proofs.Removal.Again
import IdlDecls.Proofs.Removal.Conventions
import IdlDecls.Proofs.Removal.Exact
import IdlDecls.Proofs.Removal.Unknown

/-!
# Written values pruned again

What is read of a pruned value is written with more in it than was left: empty lists and collections
come back, and names are filled in from keys. `AgainAs` says of a value that this is no matter: what
is read can be written and pruned by the same template once more, and it reads as the same then.
There is one law for each way of reading, as there is for values that come back without being pruned
(`Restores`). The fields of a record follow one by one (`FieldAgain`), and the record from them
(`Pruned.record_again`).
-/

namespace IdlDecls

open Read

variable {α : Type}

/-! ## Objects -/

theorem Json.exists_pruneFields {entries : List (String × Template)} :
    ∀ {fields : List (String × Json)},
      (∀ e ∈ fields, ∃ kept, Pruned (Entries.get? entries e.1) (some e.2) kept) →
      ∃ left, pruneFields fields entries = .ok left
  | [], _ => ⟨[], rfl⟩
  | (key, value) :: rest, h => by
    obtain ⟨⟨kept, hkept⟩, hfields⟩ := List.forall_mem_cons.1 h
    obtain ⟨left, hleft⟩ := exists_pruneFields hfields
    rw [pruneFields, templateFor?, hleft]
    cases ht : Entries.get? entries key with
    | none => exact ⟨_, rfl⟩
    | some t =>
      have hprune : value.prune t = .ok kept := by
        rw [ht] at hkept
        exact hkept
      simp only [hprune]
      cases kept <;> exact ⟨_, rfl⟩

/-- An object that a template does not remove is pruned if each of its fields is. -/
theorem Pruned.exists_of_fields {template : Option Template} {fields : List (String × Json)}
    (hasc : Entries.Ascending fields) (ht : template ≠ some .remove)
    (h : ∀ key, ∃ kept, Pruned (template.bind (·.at? key)) (Entries.get? fields key) kept) :
    ∃ left, Pruned template (some (.obj fields)) (some (.obj left)) := by
  rcases template with _ | _ | listed | entries
  · exact ⟨fields, pruned_unsaid_iff.2 rfl⟩
  · exact absurd rfl ht
  · exact ⟨_, rfl⟩
  · have hfields : ∀ e ∈ fields, ∃ kept, Pruned (Entries.get? entries e.1) (some e.2) kept := by
      intro e he
      obtain ⟨kept, hkept⟩ := h e.1
      rw [(Entries.get?_eq_some_iff_mem hasc).2 he] at hkept
      exact ⟨kept, hkept⟩
    obtain ⟨left, hleft⟩ := Json.exists_pruneFields hfields
    exact ⟨left, congrArg (fun run => (fun kept => some (Json.obj kept)) <$> run) hleft⟩

/-- **A record is pruned again** if each of its fields is: what is read of its extra fields is what
the template left, and leaves. -/
theorem Pruned.record_again {template : Option Template} {extra : Extra}
    {pieces pieces' left : List (String × Json)} {P : Json → Prop}
    (h : Pruned template (some (Layout.ascending (pieces ++ extra.entries))) (some (.obj left)))
    (keys : List String) (hpieces : KeysIn keys pieces')
    (hfields : ∀ key ∈ keys, ∃ kept,
      Pruned (template.bind (·.at? key)) (Entries.last? pieces' key) kept)
    (hleft' : ∀ left', rest keys left' = rest keys left →
      (∀ key ∈ keys, Pruned (template.bind (·.at? key)) (Entries.last? pieces' key)
        (Entries.get? left' key)) → P (.obj left')) :
    ∃ kept', Pruned template (some (Layout.ascending (pieces' ++ (rest keys left).entries)))
      (some kept') ∧ P kept' := by
  have hasc : Entries.Ascending (Entries.sorted (pieces' ++ (rest keys left).entries)) :=
    Entries.ascending_sorted _
  obtain ⟨_, hascLeft, hleft, hfirst⟩ := Pruned.field (Entries.ascending_sorted _) h
  obtain ⟨⟩ : left = _ := by simpa using hleft
  -- under a key that is no field stands what the template left there
  have hbeside : ∀ key ∉ keys, Entries.get?
      (Entries.sorted (pieces' ++ (rest keys left).entries)) key = Entries.get? left key := by
    intro key hkey
    have hnone : Entries.last? pieces' key = none := by
      refine Entries.get?_eq_none_iff.2 fun e he heq => ?_
      exact hkey (heq ▸ hpieces e (List.mem_reverse.1 he))
    rw [Entries.get?_sorted]
    refine (last?_append pieces' (rest keys left).entries key).trans ?_
    rw [last?_entries, hnone, Option.or_none, rest, Keyed.get?_ofList, ← List.filter_reverse,
      get?_filter_keys, if_neg hkey, Entries.get?_reverse_of_ascending hascLeft]
  have hexists : ∀ key, ∃ kept, Pruned (template.bind (·.at? key))
      (Entries.get? (Entries.sorted (pieces' ++ (rest keys left).entries)) key) kept := by
    intro key
    by_cases hkey : key ∈ keys
    · rw [get?_written (Extra.beside_rest keys left) hkey]
      exact hfields key hkey
    · rw [hbeside key hkey]
      exact ⟨_, (hfirst key).again⟩
  obtain ⟨left', hkept'⟩ := Pruned.exists_of_fields hasc (h.isSome_iff.1 rfl).2 hexists
  obtain ⟨_, hascLeft', hobject, hsecond⟩ := Pruned.field hasc hkept'
  obtain ⟨⟩ : left' = _ := by simpa using hobject
  refine ⟨_, hkept', hleft' left' (Keyed.ext_get? fun key => ?_) fun key hkey => ?_⟩
  · rw [rest, rest, Keyed.get?_ofList, Keyed.get?_ofList, ← List.filter_reverse,
      ← List.filter_reverse, get?_filter_keys, get?_filter_keys,
      Entries.get?_reverse_of_ascending hascLeft, Entries.get?_reverse_of_ascending hascLeft']
    by_cases hkey : key ∈ keys
    · rw [if_pos hkey, if_pos hkey]
    · rw [if_neg hkey, if_neg hkey]
      have hkept := hsecond key
      rw [hbeside key hkey] at hkept
      exact hkept.unique (hfirst key).again
  · have hkept := hsecond key
    rwa [get?_written (Extra.beside_rest keys left) hkey] at hkept

/-! ## Values -/

/-- Whatever is read of what a template leaves of a value can be completed by `fill`, written and
pruned by the template again, and reads as the same up to `fill`. -/
def AgainAs (fill : α → α) (read : Json → Reading α) (write : α → Json) (value : α) : Prop :=
  ∀ said kept result, Pruned said (some (write value)) (some kept) → read kept = .ok result →
    ∃ kept', Pruned said (some (write (fill result))) (some kept') ∧
      ∃ result', read kept' = .ok result' ∧ fill result' = fill result

section Values

variable {read : Json → Reading α} {write : α → Json} {fill : α → α}

/-- Nothing but its removal can be said of a text. -/
theorem Pruned.eq_none_of_text {said : Option Template} {s : String} {kept : Json}
    (h : Pruned said (some (.str s)) (some kept)) : said = none := by
  rcases said with _ | _ | _ | _
  · rfl
  · cases pruned_remove_iff.1 h
  · cases h
  · cases h

theorem again_text {fill : String → String} (hfill : ∀ s, fill (fill s) = fill s) (s : String) :
    AgainAs fill text .str s := by
  intro said kept result hkept _
  rw [hkept.eq_none_of_text]
  exact ⟨_, pruned_unsaid_iff.2 rfl, fill result, rfl, hfill result⟩

theorem again_exposure (e : Exposure) : AgainAs id exposure Write.exposure e := by
  intro said kept result hkept hread
  rw [eq_of_pruned_text hkept] at hread
  obtain rfl : Exposure.ofText e.text = result := pure_eq_ok_iff.1 hread
  rw [hkept.eq_none_of_text]
  exact ⟨_, pruned_unsaid_iff.2 rfl, _, Exposure.read_written (Exposure.plain_ofText _), rfl⟩

/-- An array that is left is one of which nothing or names are said. -/
theorem Pruned.array_iff {said : Option Template} {items : List Json} {kept : Json} :
    Pruned said (some (.arr items)) (some kept) ↔
      (said = none ∨ ∃ listed, said = some (.names listed)) ∧
        kept = .arr (items.filter (Template.keepsItem said)) := by
  rcases said with _ | _ | listed | entries
  · have hall : items.filter (Template.keepsItem none) = items :=
      List.filter_eq_self.2 fun _ _ => rfl
    simp [hall]
  · simp
  · rw [and_iff_right (Or.inr ⟨listed, rfl⟩)]
    constructor
    · intro h
      exact (Option.some.inj (Except.ok.inj h)).symm
    · rintro rfl
      rfl
  · refine iff_of_false nofun ?_
    rintro ⟨h | ⟨_, h⟩, -⟩ <;> cases h

theorem Template.keepsItem_congr {said : Option Template} {j j' : Json}
    (h : j.identity? = j'.identity?) : Template.keepsItem said j = Template.keepsItem said j' := by
  rcases said with _ | _ | _ | _
  · rfl
  · rfl
  · rw [keepsItem, keepsItem, h]
  · rfl

/-- A list is pruned again if its items go by the names that they had and read as the same. -/
theorem again_list {values : List α}
    (h : ∀ v ∈ values, ∀ result, read (write v) = .ok result →
      (∃ result', read (write (fill result)) = .ok result' ∧ fill result' = fill result) ∧
        (write (fill result)).identity? = (write v).identity?) :
    AgainAs (List.map fill) (list read) (fun values => .arr (values.map write)) values := by
  intro said kept results hkept hread
  obtain ⟨hsaid, rfl⟩ := Pruned.array_iff.1 hkept
  have hitems := mapM_eq_ok_iff.1 hread
  have hresult : ∀ r ∈ results, Template.keepsItem said (write (fill r)) = true ∧
      ∃ r', read (write (fill r)) = .ok r' ∧ fill r' = fill r := by
    intro r hr
    obtain ⟨j, hj, hread⟩ := exists_of_forall₂ hitems r hr
    obtain ⟨hj, hkeeps⟩ := List.mem_filter.1 hj
    obtain ⟨v, hv, rfl⟩ := List.mem_map.1 hj
    obtain ⟨hagain, hidentity⟩ := h v hv r hread
    exact ⟨(Template.keepsItem_congr hidentity).trans hkeeps, hagain⟩
  have hall : ((results.map fill).map write).filter (Template.keepsItem said) =
      (results.map fill).map write := by
    refine List.filter_eq_self.2 fun j hj => ?_
    obtain ⟨_, hfilled, rfl⟩ := List.mem_map.1 hj
    obtain ⟨r, hr, rfl⟩ := List.mem_map.1 hfilled
    exact (hresult r hr).1
  refine ⟨_, Pruned.array_iff.2 ⟨hsaid, rfl⟩, ?_⟩
  rw [hall]
  clear hkept hread hitems hall
  induction results with
  | nil => exact ⟨[], rfl, rfl⟩
  | cons r rest ih =>
    obtain ⟨⟨-, r', hr', hfill⟩, hrest⟩ := List.forall_mem_cons.1 hresult
    obtain ⟨rest', hrest', hfills⟩ := ih hrest
    refine ⟨r' :: rest', mapM_eq_ok_iff.2 (.cons hr' (mapM_eq_ok_iff.1 hrest')), ?_⟩
    rw [List.map_cons, List.map_cons, hfill, hfills]

/-- A list of values that come back is pruned again. -/
theorem again_restored {values : List α} (h : ∀ v ∈ values, Restores read write v) :
    AgainAs id (list read) (fun values => .arr (values.map write)) values := by
  have hlist : AgainAs (List.map id) (list read) (fun values => .arr (values.map write))
      values := by
    refine again_list fun v hv result hresult => ?_
    obtain rfl : v = result := Except.ok.inj ((h v hv).read_eq.symm.trans hresult)
    exact ⟨⟨v, hresult, rfl⟩, rfl⟩
  rwa [List.map_id_fun] at hlist

theorem again_texts (names : List String) :
    AgainAs id (list text) (fun names => .arr (names.map .str)) names :=
  again_restored fun s _ => restores_text s

/-- Entries that are read one by one make a collection. -/
theorem exists_keyed {fields : List (String × Json)}
    (h : ∀ field ∈ fields, ∃ value, read field.2 = .ok value) :
    ∃ m, keyed read (.obj fields) = .ok m := by
  have hentries : ∃ entries,
      fields.mapM (fun field => (field.1, ·) <$> read field.2) = .ok entries := by
    induction fields with
    | nil => exact ⟨[], rfl⟩
    | cons field rest ih =>
      obtain ⟨⟨value, hvalue⟩, hrest⟩ := List.forall_mem_cons.1 h
      obtain ⟨entries, hentries⟩ := ih hrest
      exact ⟨(field.1, value) :: entries, mapM_eq_ok_iff.2
        (.cons (map_eq_ok_iff.2 ⟨value, hvalue, rfl⟩) (mapM_eq_ok_iff.1 hentries))⟩
  obtain ⟨entries, hentries⟩ := hentries
  exact ⟨.ofList entries, map_eq_ok_iff.2 ⟨entries, hentries, rfl⟩⟩

/-- The collection is the one that its entries are, up to what their names fill in. -/
theorem exists_keyed_of_readAs {fill : String → α → α} {fields : List (String × Json)} {m : Keyed α}
    (hasc : Entries.Ascending fields)
    (h : ∀ name, ReadAs (fun j => fill name <$> read j) (Entries.get? fields name) (m.get? name)) :
    ∃ result, keyed read (.obj fields) = .ok result ∧ result.map fill = m := by
  have hreads : ∀ field ∈ fields, ∃ value, read field.2 = .ok value := by
    rintro ⟨name, j⟩ hj
    have hname := h name
    rw [(Entries.get?_eq_some_iff_mem hasc).2 hj] at hname
    obtain ⟨_, hread, -⟩ := hname
    obtain ⟨value, hvalue, -⟩ := map_eq_ok_iff.1 hread
    exact ⟨value, hvalue⟩
  obtain ⟨result, hresult⟩ := exists_keyed hreads
  refine ⟨result, hresult, Keyed.ext_get? fun name => ?_⟩
  rw [Keyed.get?_map]
  exact ((readAs_of_keyed hasc hresult name).map (fill name)).unique (h name)

/-- **One entry is pruned again**, whether it is there or not: what is read of what is left of it is
completed, written and pruned, and reads as the same. -/
theorem readAs_again {value result : Option α} {said : Option Template} {kept : Option Json}
    (hvalue : ∀ v ∈ value, AgainAs fill read write v) (h : Pruned said (value.map write) kept)
    (hread : ReadAs read kept result) :
    ∃ kept', Pruned said ((result.map fill).map write) kept' ∧
      ReadAs (fun j => fill <$> read j) kept' (result.map fill) := by
  cases kept with
  | none =>
    cases hread
    exact ⟨none, pruned_absent_iff.2 rfl, rfl⟩
  | some kept =>
    obtain ⟨r, hr, rfl⟩ := hread
    cases value with
    | none => cases pruned_absent_iff.1 h
    | some v =>
      obtain ⟨kept', hkept', r', hr', hfill⟩ := hvalue v rfl said kept r h hr
      exact ⟨some kept', hkept', _, map_eq_ok_iff.2 ⟨r', hr', rfl⟩, congrArg some hfill.symm⟩

/-- **Entries are pruned again** if each of them is. -/
theorem again_keyed {fill : String → α → α} {m : Keyed α}
    (h : ∀ name v, m.get? name = some v → AgainAs (fill name) read write v) :
    AgainAs (fun m => m.map fill) (keyed read)
      (fun m => .obj (m.entries.map fun e => (e.1, write e.2))) m := by
  intro said kept result hkept hread
  obtain ⟨left, hascLeft, hleft, hfirst⟩ := Pruned.field (m.ascending_entries_map write) hkept
  obtain rfl : kept = .obj left := by simpa using hleft
  have hentry : ∀ name, ∃ kept', Pruned (said.bind (·.at? name))
      (((result.map fill).get? name).map write) kept' ∧
        ReadAs (fun j => fill name <$> read j) kept' ((result.map fill).get? name) := by
    intro name
    have hpruned := hfirst name
    rw [Keyed.get?_entries_map] at hpruned
    rw [Keyed.get?_map]
    exact readAs_again (h name) hpruned (readAs_of_keyed hascLeft hread name)
  have hexists : ∀ name, ∃ kept', Pruned (said.bind (·.at? name))
      (Entries.get? ((result.map fill).entries.map fun e => (e.1, write e.2)) name) kept' := by
    intro name
    rw [Keyed.get?_entries_map]
    exact (hentry name).imp fun _ => And.left
  obtain ⟨left', hleft'⟩ := Pruned.exists_of_fields ((result.map fill).ascending_entries_map write)
    (hkept.isSome_iff.1 rfl).2 hexists
  obtain ⟨_, hascLeft', hobject, hsecond⟩ :=
    Pruned.field ((result.map fill).ascending_entries_map write) hleft'
  obtain ⟨⟩ : left' = _ := by simpa using hobject
  have hagain : ∀ name, ReadAs (fun j => fill name <$> read j) (Entries.get? left' name)
      ((result.map fill).get? name) := by
    intro name
    obtain ⟨kept', hkept', hreads⟩ := hentry name
    have hpruned := hsecond name
    rw [Keyed.get?_entries_map] at hpruned
    exact hpruned.unique hkept' ▸ hreads
  obtain ⟨result', hresult', hsame⟩ := exists_keyed_of_readAs hascLeft' hagain
  exact ⟨_, hleft', result', hresult', hsame⟩

end Values

/-! ## Fields -/

/-- What is written under a key is pruned again, and `meaning` holds of the fields that have there
what is left of it. -/
structure FieldAgain (said : Option Template) (written : Option Json) (key : String)
    (meaning : List (String × Json) → Prop) : Prop where
  pruned : ∃ kept, Pruned said written kept
  read : ∀ left, Pruned said written (Entries.get? left key) → meaning left

section Fields

variable {read : Json → Reading α} {write : α → Json} {fill : α → α} {said : Option Template}
  {key : String} {left : List (String × Json)} {meaning : List (String × Json) → Prop}

/-- A field that is written as it was left stays as it is. -/
theorem FieldAgain.of_left {first written : Option Json}
    (h : Pruned said first (Entries.get? left key)) (hwritten : written = Entries.get? left key)
    (hmeaning : ∀ left', Entries.get? left' key = Entries.get? left key → meaning left') :
    FieldAgain said written key meaning where
  pruned := ⟨_, hwritten ▸ h.again⟩
  read left' h' := hmeaning left' ((hwritten ▸ h').unique h.again)

/-- A field that was left out because it was absent or removed is left out again. -/
theorem FieldAgain.of_absent {written : Option Json} (hsaid : said = some .remove ∨ written = none)
    (hmeaning : ∀ left', Entries.get? left' key = none → meaning left') :
    FieldAgain said written key meaning := by
  have hnone : ∀ kept, Pruned said written kept ↔ kept = none := by
    rcases hsaid with rfl | rfl
    · exact fun _ => pruned_remove_iff
    · exact fun _ => pruned_absent_iff
  exact ⟨⟨none, (hnone _).2 rfl⟩, fun left' h' => hmeaning left' ((hnone _).1 h')⟩

/-- A value of which nothing is left was removed. -/
theorem Pruned.eq_remove {value : Json} (h : Pruned said (some value) none) :
    said = some .remove := by
  by_contra hsaid
  exact absurd (h.isSome_iff.2 ⟨rfl, hsaid⟩) nofun

theorem optional_again {value result : Option α} (hvalue : ∀ v ∈ value, AgainAs fill read write v)
    (hnull : ∃ e, read .null = .error e) (h : Pruned said (value.map write) (Entries.get? left key))
    (hread : Read.optional read left key = .ok result) :
    FieldAgain said ((result.map fill).map write) key fun left' =>
      ∃ result', Read.optional read left' key = .ok result' ∧
        result'.map fill = result.map fill := by
  have habsent : ∀ left', Entries.get? left' key = none →
      ∃ result', Read.optional read left' key = .ok result' ∧
        result'.map fill = (none : Option α).map fill := fun left' hleft' =>
    ⟨none, by rw [Read.optional, hleft']; rfl, rfl⟩
  rw [Read.optional] at hread
  split at hread
  · cases pure_eq_ok_iff.1 hread
    exact .of_absent (Or.inr rfl) habsent
  · cases pure_eq_ok_iff.1 hread
    exact .of_absent (Or.inr rfl) habsent
  · rename_i kept _ hkept
    obtain ⟨r, hr, rfl⟩ := map_eq_ok_iff.1 hread
    rw [hkept] at h
    cases value with
    | none => cases pruned_absent_iff.1 h
    | some v =>
      obtain ⟨kept', hkept', r', hr', hfill⟩ := hvalue v rfl said kept r h hr
      refine ⟨⟨_, hkept'⟩, fun left' hleft' => ⟨some r', ?_, congrArg some hfill⟩⟩
      rw [Read.optional, hleft'.unique hkept']
      split
      · rename_i heq
        cases heq
      · rename_i heq
        cases heq
        obtain ⟨e, he⟩ := hnull
        cases he.symm.trans hr'
      · rename_i heq
        cases heq
        exact map_eq_ok_iff.2 ⟨r', hr', rfl⟩

theorem optional_again_id {value result : Option α} (hvalue : ∀ v ∈ value, AgainAs id read write v)
    (hnull : ∃ e, read .null = .error e) (h : Pruned said (value.map write) (Entries.get? left key))
    (hread : Read.optional read left key = .ok result) :
    FieldAgain said (result.map write) key fun left' =>
      Read.optional read left' key = .ok result := by
  simpa using optional_again hvalue hnull h hread

theorem orElse_again {default value result : α} (hvalue : AgainAs fill read write value)
    (h : Pruned said (some (write value)) (Entries.get? left key))
    (hread : orElse default read left key = .ok result) :
    FieldAgain said (some (write (fill result))) key fun left' =>
      ∃ result', orElse default read left' key = .ok result' ∧ fill result' = fill result := by
  rw [orElse] at hread
  cases hkept : Entries.get? left key with
  | none =>
    rw [hkept] at h hread
    cases pure_eq_ok_iff.1 hread
    refine .of_absent (Or.inl h.eq_remove) fun left' hleft' => ⟨default, ?_, rfl⟩
    rw [orElse, hleft']
    rfl
  | some kept =>
    rw [hkept] at h hread
    obtain ⟨kept', hkept', r', hr', hfill⟩ := hvalue said kept result h hread
    refine ⟨⟨_, hkept'⟩, fun left' hleft' => ⟨r', ?_, hfill⟩⟩
    rw [orElse, hleft'.unique hkept']
    exact hr'

theorem orElse_again_id {default value result : α} (hvalue : AgainAs id read write value)
    (h : Pruned said (some (write value)) (Entries.get? left key))
    (hread : orElse default read left key = .ok result) :
    FieldAgain said (some (write result)) key fun left' =>
      orElse default read left' key = .ok result := by
  simpa using orElse_again hvalue h hread

/-- A text that may be absent. -/
theorem text_again {value result : Option String}
    (h : Pruned said (value.map .str) (Entries.get? left key))
    (hread : Read.optional text left key = .ok result) :
    FieldAgain said (result.map .str) key fun left' =>
      Read.optional text left' key = .ok result :=
  optional_again_id (fun s _ => again_text (fun _ => rfl) s) ⟨_, rfl⟩ h hread

/-- An exposure that may be absent. -/
theorem exposure_again {value result : Option Exposure}
    (h : Pruned said (value.map Write.exposure) (Entries.get? left key))
    (hread : Read.optional exposure left key = .ok result) :
    FieldAgain said (result.map Write.exposure) key fun left' =>
      Read.optional exposure left' key = .ok result :=
  optional_again_id (fun e _ => again_exposure e) ⟨_, rfl⟩ h hread

/-- A name that is completed by `fill`. -/
theorem name_again {fill : String → String} (hfill : ∀ s, fill (fill s) = fill s)
    {value result : String} (h : Pruned said (some (.str value)) (Entries.get? left key))
    (hread : orElse "" text left key = .ok result) :
    FieldAgain said (some (.str (fill result))) key fun left' =>
      ∃ result', orElse "" text left' key = .ok result' ∧ fill result' = fill result :=
  orElse_again (again_text hfill value) h hread

theorem required_again {value result : α} (hvalue : AgainAs id read write value)
    (h : Pruned said (some (write value)) (Entries.get? left key))
    (hread : required read left key = .ok result) :
    FieldAgain said (some (write result)) key fun left' =>
      required read left' key = .ok result := by
  rw [required] at hread
  cases hkept : Entries.get? left key with
  | none =>
    rw [hkept] at hread
    cases hread
  | some kept =>
    rw [hkept] at h hread
    obtain ⟨kept', hkept', r', hr', hfill⟩ := hvalue said kept result h hread
    refine ⟨⟨_, hkept'⟩, fun left' hleft' => ?_⟩
    rw [required, hleft'.unique hkept']
    exact hr'.trans (congrArg Except.ok hfill)

/-- A list that is left out when empty is read as empty when left out. -/
theorem nonempty_again {values result : List α} (hvalues : ∀ v ∈ values, Restores read write v)
    (h : Pruned said (if values ≠ [] then some (.arr (values.map write)) else none)
      (Entries.get? left key))
    (hread : orElse [] (list read) left key = .ok result) :
    FieldAgain said (if result ≠ [] then some (.arr (result.map write)) else none) key fun left' =>
      orElse [] (list read) left' key = .ok result := by
  have habsent : ∀ left', Entries.get? left' key = none →
      orElse [] (list read) left' key = .ok [] := fun left' hleft' => by
    rw [orElse, hleft']
    rfl
  by_cases hresult : result = []
  · subst hresult
    exact .of_absent (Or.inr rfl) habsent
  · have hvalue : values ≠ [] := by
      rintro rfl
      rw [if_neg (not_not.2 rfl), pruned_absent_iff] at h
      rw [habsent left h] at hread
      exact hresult (Except.ok.inj hread).symm
    rw [if_pos hvalue] at h
    rw [if_pos hresult]
    have hagain : AgainAs id (list read) (fun values => .arr (values.map write)) values :=
      again_restored hvalues
    exact orElse_again_id hagain h hread

theorem flag_again {value result : Option Bool}
    (h : Pruned said (value.map .bool) (Entries.get? left key))
    (hread : flag left key = .ok result) :
    FieldAgain said (result.map .bool) key fun left' => flag left' key = .ok result := by
  refine .of_left h ?_ fun left' hleft' => by rw [flag, hleft']; exact hread
  cases hkept : Entries.get? left key with
  | none =>
    rw [flag, hkept] at hread
    rw [← pure_eq_ok_iff.1 hread]
    rfl
  | some kept =>
    rw [hkept] at h
    cases value with
    | none => cases pruned_absent_iff.1 h
    | some b =>
      obtain rfl : kept = .bool b := by
        rcases said with _ | _ | _ | _
        · exact Option.some.inj (pruned_unsaid_iff.1 h)
        · cases pruned_remove_iff.1 h
        · cases h
        · cases h
      rw [flag, hkept] at hread
      rw [← pure_eq_ok_iff.1 hread]
      rfl

/-- JSON without a meaning is written as it was left, or left out where null was. -/
theorem literal_again {value result : Option Json}
    (h : Pruned said (value.map id) (Entries.get? left key))
    (hread : Read.optional pure left key = .ok result) :
    FieldAgain said (result.map id) key fun left' =>
      Read.optional pure left' key = .ok result := by
  have habsent : ∀ left', Entries.get? left' key = none →
      Read.optional (pure : Json → Reading Json) left' key = .ok none := fun left' hleft' => by
    rw [Read.optional, hleft']
    rfl
  have hsame : ∀ left', Entries.get? left' key = Entries.get? left key →
      Read.optional (pure : Json → Reading Json) left' key = .ok result := fun left' hleft' => by
    rw [Read.optional, hleft']
    exact hread
  rw [Read.optional] at hread
  split at hread
  · cases pure_eq_ok_iff.1 hread
    exact .of_absent (Or.inr rfl) habsent
  · cases pure_eq_ok_iff.1 hread
    exact .of_absent (Or.inr rfl) habsent
  · rename_i kept _ hkept
    obtain ⟨_, hr, rfl⟩ := map_eq_ok_iff.1 hread
    cases pure_eq_ok_iff.1 hr
    exact .of_left h hkept.symm hsame

end Fields

/-! ## Collections and type definitions -/

/-- A record without extra fields that has one field. -/
theorem again_singleton {key : String} {default : α} {read : Json → Reading α} {write : α → Json}
    {fill : α → α} {value : α} (hvalue : AgainAs fill read write value) :
    AgainAs fill (record [key] fun fields => orElse default read fields key)
      (fun value => Layout.ascending [(key, write value)]) value := by
  have hobject : ∀ value, Entries.Ascending [(key, write value)] ∧
      ∀ name, Entries.get? [(key, write value)] name =
        if key = name then some (write value) else none := fun value =>
    ⟨List.pairwise_singleton _ _, fun name => rfl⟩
  intro said kept result hkept hread
  obtain ⟨left, -, hleft, hfirst⟩ := Pruned.field (hobject value).1 hkept
  obtain rfl : kept = .obj left := by simpa using hleft
  have hkey := hfirst key
  rw [(hobject value).2, if_pos rfl] at hkey
  have hfield := orElse_again hvalue hkey hread
  have hexists : ∀ name, ∃ kept', Pruned (said.bind (·.at? name))
      (Entries.get? [(key, write (fill result))] name) kept' := by
    intro name
    rw [(hobject _).2]
    by_cases hname : key = name
    · subst hname
      rw [if_pos rfl]
      exact hfield.pruned
    · rw [if_neg hname]
      exact ⟨none, pruned_absent_iff.2 rfl⟩
  obtain ⟨left', hleft'⟩ := Pruned.exists_of_fields (hobject (fill result)).1
    (hkept.isSome_iff.1 rfl).2 hexists
  obtain ⟨_, -, hobject', hsecond⟩ := Pruned.field (hobject _).1 hleft'
  obtain ⟨⟩ : left' = _ := by simpa using hobject'
  have hkey' := hsecond key
  rw [(hobject _).2, if_pos rfl] at hkey'
  exact ⟨_, hleft', hfield.read left' hkey'⟩

theorem again_collection {entries : String} {read : Json → Reading α} {write : α → Json}
    {fill : String → α → α} {m : Keyed α}
    (h : ∀ name v, m.get? name = some v → AgainAs (fill name) read write v) :
    AgainAs (fun m => m.map fill) (Read.collection entries read)
      (Write.collection .ascending entries write) m :=
  again_singleton (again_keyed h)

/-- A collection that may be left out. -/
theorem collection_again {entries key : String} {read : Json → Reading α} {write : α → Json}
    {c result : Option (Keyed α)} {said : Option Template} {left : List (String × Json)}
    (fill : String → α → α)
    (hc : ∀ name v, lookup? c name = some v → AgainAs (fill name) read write v)
    (h : Pruned said (c.map (Write.collection .ascending entries write)) (Entries.get? left key))
    (hread : Read.optional (Read.collection entries read) left key = .ok result) :
    FieldAgain said ((result.map (·.map fill)).map (Write.collection .ascending entries write)) key
      fun left' => ∃ result', Read.optional (Read.collection entries read) left' key = .ok result' ∧
        result'.map (·.map fill) = result.map (·.map fill) := by
  refine optional_again (fun m hm => again_collection fun name v hv => hc name v ?_) ⟨_, rfl⟩
    h hread
  rw [Option.mem_def.1 hm]
  exact hv

theorem again_typedefs {items : List Typedef} (h : ∀ t ∈ items, t.Tidy) :
    AgainAs id typedefsOfJson (typedefsToJson .ascending) items :=
  again_singleton (again_restored fun t ht => Typedef.restores (h t ht))

end IdlDecls
