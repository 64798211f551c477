import IdlDecls.Model.Reader
import IdlDecls.Model.Writer
import IdlDecls.Proofs.Merge.Fields
import IdlDecls.Proofs.Text.Pieces

/-!
# Exposures in their written form

The written form of an exposure joins its contexts with spaces, and the reader cuts it at every blank.
A context that holds a blank itself is cut as well, so an exposure comes back as it was exactly if none
of its contexts does (`Exposure.Plain`, `Exposure.read_written_iff`). What is read of a text is plain;
what is read of a list is plain if no item but the blank ones, which are left out, holds a blank
(`Exposure.restored_of_text_and_list`).
-/

namespace IdlDecls

namespace Exposure

/-- No context holds a blank. -/
def Plain (e : Exposure) : Prop :=
  ∀ context ∈ e.contexts, ∀ c ∈ context.toList, Text.isBlank c = false

-- Written out: the search for an instance may quantify over all characters and not over a context's.
instance (e : Exposure) : Decidable e.Plain :=
  decidable_of_iff (e.contexts.all fun context => context.toList.all fun c => !Text.isBlank c)
    (by simp [Plain])

/-! ## The contexts of a list and of a text -/

/-- Blank contexts may be left out before they are inserted. -/
theorem insertAll_filter_blank : ∀ (contexts : List String) (e : Exposure),
    e.insertAll (contexts.filter fun context => !Text.blank context) = e.insertAll contexts
  | [], _ => rfl
  | context :: rest, e => by
    have hrest := insertAll_filter_blank rest (e.insert context)
    cases hblank : Text.blank context with
    | true =>
      have hinsert : e.insert context = e :=
        insert_of_not_accepts (by simp [accepts, hblank])
      rw [List.filter_cons_of_neg (by simp [hblank])]
      rw [hinsert] at hrest
      exact hrest.trans (congrArg (insertAll · rest) hinsert.symm)
    | false =>
      rw [List.filter_cons_of_pos (by simp [hblank])]
      exact hrest

/-- **The contexts of a list** are those that are not blank, each where it first stands. -/
theorem contexts_ofList (contexts : List String) :
    (ofList contexts).contexts =
      (contexts.filter fun context => !Text.blank context).eraseDups := by
  have hnonblank : ∀ c ∈ contexts.filter (fun context => !Text.blank context),
      Text.blank c = false := fun c hc => by simpa using (List.mem_filter.1 hc).2
  rw [ofList, ← insertAll_filter_blank, contexts_insertAll empty hnonblank, unionNames_eq]
  simp [joinedNames, empty]

theorem mem_contexts_ofList {contexts : List String} {context : String} :
    context ∈ (ofList contexts).contexts ↔ context ∈ contexts ∧ Text.blank context = false := by
  rw [contexts_ofList, List.mem_eraseDups, List.mem_filter, Bool.not_eq_true']

/-- An exposure of a list is plain if nothing in the list but what is blank holds a blank. -/
theorem plain_ofList_iff {contexts : List String} : (ofList contexts).Plain ↔
    ∀ context ∈ contexts, Text.blank context = false →
      ∀ c ∈ context.toList, Text.isBlank c = false := by
  simp only [Plain, mem_contexts_ofList, and_imp]

/-- What is read of a text has no context with a blank. -/
theorem plain_ofText (text : String) : (ofText text).Plain :=
  plain_ofList_iff.2 fun _ hcontext _ => (Text.mem_words hcontext).2

/-! ## Reading what is written -/

/-- The words of the contexts are read, each where it first stands. -/
theorem contexts_ofText_text (e : Exposure) :
    (ofText e.text).contexts = (e.contexts.flatMap Text.words).eraseDups := by
  rw [ofText, text, Text.words_intercalate, contexts_ofList, List.filter_eq_self.2]
  intro word hword
  obtain ⟨context, -, hmem⟩ := List.mem_flatMap.1 hword
  simp [Text.blank_of_mem_words hmem]

theorem ofText_text {e : Exposure} (h : e.Plain) : ofText e.text = e := by
  have hwords : ∀ context ∈ e.contexts, Text.words context = [context] := by
    intro context hcontext
    refine Text.words_of_unbroken (fun hempty => ?_) (h context hcontext)
    have hblank := e.nonblank context hcontext
    rw [hempty, Text.blank_empty] at hblank
    cases hblank
  refine ext_contexts ?_
  rw [contexts_ofText_text, List.flatMap_congr hwords, List.flatMap_singleton',
    eraseDups_of_nodup e.nodup]

/-- **A written exposure is read back.** -/
theorem read_written {e : Exposure} (h : e.Plain) : Read.exposure (Write.exposure e) = .ok e := by
  rw [Write.exposure, Read.exposure, ofText_text h]
  rfl

/-- **An exposure comes back as it was exactly if it is plain.** What comes back is plain in any case,
so it comes back from then on. -/
theorem read_written_iff (e : Exposure) : ∃ r, Read.exposure (Write.exposure e) = .ok r ∧
    r.contexts = (e.contexts.flatMap Text.words).eraseDups ∧ r.Plain ∧ (r = e ↔ e.Plain) := by
  refine ⟨ofText e.text, rfl, contexts_ofText_text e, plain_ofText e.text, ?_, ofText_text⟩
  intro hsame
  rw [← hsame]
  exact plain_ofText e.text

/-- **Which exposures are restored.** One that is read of a text always is. One that is made of a list
comes back with the words of its contexts, and so is restored exactly if every item of the list is blank
or holds no blank. -/
theorem restored_of_text_and_list :
    (∀ text, Read.exposure (Write.exposure (ofText text)) = .ok (ofText text)) ∧
      ∀ contexts, ∃ r, Read.exposure (Write.exposure (ofList contexts)) = .ok r ∧
        r.contexts = ((ofList contexts).contexts.flatMap Text.words).eraseDups ∧
        (r = ofList contexts ↔ ∀ context ∈ contexts, Text.blank context = false →
          ∀ c ∈ context.toList, Text.isBlank c = false) := by
  refine ⟨fun text => read_written (plain_ofText text), fun contexts => ?_⟩
  obtain ⟨r, hread, hcontexts, -, hsame⟩ := read_written_iff (ofList contexts)
  exact ⟨r, hread, hcontexts, hsame.trans plain_ofList_iff⟩

/-- One context with a space inside is read of a list, and written it is read as two. -/
theorem spaced_context_not_restored :
    Read.exposure (.arr [.str "Window Worker"]) = .ok (ofList ["Window Worker"]) ∧
      (ofList ["Window Worker"]).contexts = ["Window Worker"] ∧
      ∃ r, Read.exposure (Write.exposure (ofList ["Window Worker"])) = .ok r ∧
        r.contexts = ["Window", "Worker"] ∧ r ≠ ofList ["Window Worker"] := by
  have hspaced : ¬ (ofList ["Window Worker"]).Plain := by decide +kernel
  obtain ⟨r, hread, hcontexts, -, hsame⟩ := read_written_iff (ofList ["Window Worker"])
  refine ⟨rfl, by decide +kernel, r, hread, hcontexts.trans (by decide +kernel), ?_⟩
  exact fun h => hspaced (hsame.1 h)

end Exposure

end IdlDecls
