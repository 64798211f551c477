import Mathlib.Data.List.Induction
import IdlDecls.Proofs.Exposure.Written

/-!
# Exposures are ordered sets

An exposure holds the contexts that were named to it, without the blank ones and each where it was first
named. So what becomes of it in the course of any steps is told by a plain list: what is inserted or added
is put behind what was named before, and where the exposure is written and read back, the words of all that
are left (`Step.named`). A run of steps ends in the exposure of that list (`Exposure.run_ofList`). Adding
exposures to each other is associative, and adding one again changes nothing
(`Exposure.ordered_set`).
-/

namespace IdlDecls

/-! ## Lists without repeats -/

theorem nodup_eraseDups : ∀ l : List String, l.eraseDups.Nodup
  | [] => List.nodup_nil
  | a :: rest => by
    rw [List.eraseDups_cons, List.nodup_cons, List.mem_eraseDups, List.mem_filter]
    exact ⟨by simp, nodup_eraseDups _⟩
termination_by l => l.length
decreasing_by
  have := List.length_filter_le (fun b => !b == a) rest
  simp only [List.length_cons]
  omega

/-- What stands behind a list counts for as much as it is not in the list. -/
theorem eraseDups_append_congr {a b l : List String} (h : a.eraseDups = b.eraseDups) :
    (a ++ l).eraseDups = (b ++ l).eraseDups := by
  have hmem : ∀ x, x ∈ a ↔ x ∈ b := fun x => by
    rw [← List.mem_eraseDups (l := a), h, List.mem_eraseDups]
  have hrest : l.removeAll a = l.removeAll b := by
    simp [List.removeAll, hmem]
  rw [List.eraseDups_append, List.eraseDups_append, h, hrest]

theorem eraseDups_append_of_subset {a l : List String} (h : ∀ x ∈ l, x ∈ a) :
    (a ++ l).eraseDups = a.eraseDups := by
  have hnone : l.removeAll a = [] := by
    simpa [List.removeAll, List.filter_eq_nil_iff] using h
  rw [List.eraseDups_append, hnone, List.eraseDups_nil, List.append_nil]

/-- Repeats may be left out before each item is replaced by some. -/
theorem eraseDups_flatMap_eraseDups (f : String → List String) (l : List String) :
    (l.eraseDups.flatMap f).eraseDups = (l.flatMap f).eraseDups := by
  induction l using List.reverseRecOn with
  | nil => rfl
  | append_singleton l x ih =>
    rw [List.flatMap_append, List.flatMap_singleton]
    by_cases hx : x ∈ l
    · have hsub : ∀ y ∈ f x, y ∈ l.flatMap f := fun y hy => List.mem_flatMap.2 ⟨x, hx, hy⟩
      rw [eraseDups_append_of_subset (by simpa using hx), ih, eraseDups_append_of_subset hsub]
    · have hnew : [x].removeAll l = [x] := by simp [List.removeAll, hx]
      rw [List.eraseDups_append, hnew, show [x].eraseDups = [x] from rfl, List.flatMap_append,
        List.flatMap_singleton]
      exact eraseDups_append_congr ih

namespace Exposure

/-! ## Reading -/

theorem mapM_text_eq_ok_iff {items : List Json} {contexts : List String} :
    items.mapM Read.text = .ok contexts ↔ items = contexts.map .str := by
  have htext : (fun item context => Read.text item = .ok context) =
      fun item context => item = Json.str context := by
    funext item context
    cases item <;> simp [Read.text, pure, Except.pure, throw, throwThe, MonadExceptOf.throw]
  rw [mapM_eq_ok_iff, htext, ← List.forall₂_map_right_iff, List.forall₂_eq_eq_eq]

/-- An exposure is read of a text, which is cut into its words, or of a list of texts. -/
theorem read_eq_ok_iff {j : Json} {e : Exposure} : Read.exposure j = .ok e ↔
    (∃ text, j = .str text ∧ e = ofList (Text.words text)) ∨
      ∃ contexts : List String, j = .arr (contexts.map .str) ∧ e = ofList contexts := by
  constructor
  · intro h
    cases j with
    | str text =>
      cases h
      exact Or.inl ⟨text, rfl, rfl⟩
    | arr items =>
      rw [Read.exposure] at h
      cases hcontexts : items.mapM Read.text with
      | error cause => rw [hcontexts] at h; cases h
      | ok contexts =>
        rw [hcontexts] at h
        cases h
        rw [mapM_text_eq_ok_iff.1 hcontexts]
        exact Or.inr ⟨contexts, rfl, rfl⟩
    | null | bool _ | num _ | obj _ => cases h
  · rintro (⟨text, rfl, rfl⟩ | ⟨contexts, rfl, rfl⟩)
    · rfl
    · rw [Read.exposure, mapM_text_eq_ok_iff.2 rfl]
      rfl

/-! ## Steps -/

/-- Something that is done to an exposure. -/
inductive Step where
  | insert (context : String)
  | extend (other : Exposure)
  /-- It is written, and what is written is read back. -/
  | reload

namespace Step

/-- The exposure after a step. -/
def run (e : Exposure) : Step → Reading Exposure
  | insert context => pure (e.insert context)
  | extend other => pure (e.extend other)
  | reload => Read.exposure (Write.exposure e)

/-- What has been named after a step, if `earlier` was named before. -/
def named (earlier : List String) : Step → List String
  | insert context => earlier ++ [context]
  | extend other => earlier ++ other.contexts
  | reload => earlier.flatMap Text.words

end Step

theorem insertAll_append (e : Exposure) (a b : List String) :
    e.insertAll (a ++ b) = (e.insertAll a).insertAll b :=
  List.foldl_append

/-- What gives no words may be left out. -/
theorem flatMap_words_filter : ∀ named : List String,
    (named.filter fun context => !Text.blank context).flatMap Text.words = named.flatMap Text.words
  | [] => rfl
  | context :: rest => by
    have ih := flatMap_words_filter rest
    cases hblank : Text.blank context with
    | true => simp [hblank, Text.words_of_blank hblank, ih]
    | false => simp [hblank, ih]

/-- The words of an exposure are those of all that was named. -/
theorem ofText_text_ofList (named : List String) :
    ofText (ofList named).text = ofList (named.flatMap Text.words) := by
  refine ext_contexts ?_
  have hwords : ∀ word ∈ named.flatMap Text.words, (!Text.blank word) = true := by
    intro word hword
    obtain ⟨context, -, hmem⟩ := List.mem_flatMap.1 hword
    simp [Text.blank_of_mem_words hmem]
  rw [contexts_ofText_text, contexts_ofList, eraseDups_flatMap_eraseDups, flatMap_words_filter,
    contexts_ofList, List.filter_eq_self.2 hwords]

/-- **A step** leads from the exposure of what was named to that of what is then named. -/
theorem Step.run_ofList (named : List String) (step : Step) :
    step.run (ofList named) = .ok (ofList (step.named named)) := by
  cases step with
  | insert context => exact congrArg Except.ok (insertAll_append empty named [context]).symm
  | extend other => exact congrArg Except.ok (insertAll_append empty named other.contexts).symm
  | reload => rw [run, Write.exposure, Read.exposure, ofText_text_ofList]; rfl

/-- **A run of steps** succeeds, and ends in the exposure of all that was named in its course. -/
theorem run_ofList (steps : List Step) (named : List String) :
    steps.foldlM Step.run (ofList named) = .ok (ofList (steps.foldl Step.named named)) := by
  induction steps generalizing named with
  | nil => rfl
  | cons step rest ih => exact foldlM_cons_eq_ok_iff.2 ⟨_, step.run_ofList named, ih _⟩

/-! ## Insertion and addition -/

/-- A context is accepted exactly if its insertion changes the contexts. -/
theorem accepts_iff_changes (e : Exposure) (context : String) :
    e.accepts context = true ↔ (e.insert context).contexts ≠ e.contexts := by
  rw [contexts_insert]
  by_cases h : e.accepts context = true
  · simp [h]
  · simp [h]

/-- Behind the contexts of an exposure come those of the other that it has not, in their order. -/
theorem contexts_extend_eq (e other : Exposure) :
    (e.extend other).contexts = e.contexts ++ other.contexts.filter (· ∉ e.contexts) := by
  rw [contexts_extend, joinedNames, eraseDups_of_nodup (other.nodup.filter _)]

theorem prefix_extend (e other : Exposure) : e.contexts <+: (e.extend other).contexts := by
  rw [contexts_extend_eq]
  exact List.prefix_append _ _

theorem extend_extend_self (e other : Exposure) :
    (e.extend other).extend other = e.extend other := by
  refine ext_contexts ?_
  have hnone : other.contexts.filter (· ∉ (e.extend other).contexts) = [] := by
    refine List.filter_eq_nil_iff.2 fun context hmem => ?_
    by_cases he : context ∈ e.contexts <;> simp [contexts_extend_eq, he, hmem]
  rw [contexts_extend_eq _ other, hnone, List.append_nil]

theorem extend_self (e : Exposure) : e.extend e = e := by
  refine ext_contexts ?_
  have hnone : e.contexts.filter (· ∉ e.contexts) = [] := by simp [List.filter_eq_nil_iff]
  rw [contexts_extend_eq, hnone, List.append_nil]

theorem extend_assoc (a b c : Exposure) : (a.extend b).extend c = a.extend (b.extend c) := by
  refine ext_contexts ?_
  have hnew : c.contexts.filter (· ∉ (a.extend b).contexts) =
      (c.contexts.filter (· ∉ b.contexts)).filter (· ∉ a.contexts) := by
    rw [List.filter_filter, contexts_extend_eq]
    refine List.filter_congr fun context _ => ?_
    by_cases ha : context ∈ a.contexts <;> simp [ha]
  rw [contexts_extend_eq _ c, hnew, contexts_extend_eq a b, contexts_extend_eq a, contexts_extend_eq b,
    List.filter_append, List.append_assoc]

/-! ## Ordered sets -/

/-- **Exposures are ordered sets.** An exposure that is read is that of a list. However one goes on from
there, steps succeed and end in the exposure of all that was named, where each context that is not blank
stands once, in the place where it was named first. A context that is inserted is accepted exactly if it
changes the contexts, and then comes behind the others. An exposure that is added brings behind the
contexts those of its own that are not there yet, in their order; adding it again changes nothing, and in
which order three are put together does not matter. -/
theorem ordered_set :
    (∀ j e, Read.exposure j = .ok e ↔
      (∃ text, j = .str text ∧ e = ofList (Text.words text)) ∨
        ∃ contexts : List String, j = .arr (contexts.map .str) ∧ e = ofList contexts) ∧
    (∀ (start : List String) (steps : List Step), ∃ e,
      steps.foldlM Step.run (ofList start) = .ok e ∧
      e.contexts = ((steps.foldl Step.named start).filter fun c => !Text.blank c).eraseDups ∧
      e.contexts.Nodup ∧ ∀ context ∈ e.contexts, Text.blank context = false) ∧
    (∀ (e : Exposure) (context : String),
      (e.accepts context = true ↔ (e.insert context).contexts ≠ e.contexts) ∧
      (e.insert context).contexts =
        if e.accepts context then e.contexts ++ [context] else e.contexts) ∧
    ∀ a b c : Exposure,
      (a.extend b).contexts = a.contexts ++ b.contexts.filter (· ∉ a.contexts) ∧
      a.contexts <+: (a.extend b).contexts ∧
      a.extend a = a ∧ (a.extend b).extend b = a.extend b ∧
      (a.extend b).extend c = a.extend (b.extend c) := by
  refine ⟨fun _ _ => read_eq_ok_iff, fun start steps => ?_, fun e context => ?_, fun a b c => ?_⟩
  · have hcontexts := contexts_ofList (steps.foldl Step.named start)
    refine ⟨_, run_ofList steps start, hcontexts, ?_, fun context hmem => ?_⟩
    · rw [hcontexts]
      exact nodup_eraseDups _
    · exact (mem_contexts_ofList.1 hmem).2
  · exact ⟨accepts_iff_changes e context, contexts_insert e context⟩
  · exact ⟨contexts_extend_eq a b, prefix_extend a b, extend_self a, extend_extend_self a b,
      extend_assoc a b c⟩

/-- Blank and repeated contexts are left out, one with a space is cut by being written, and what is added
comes last. -/
theorem ordered_set_of_steps : ∃ e,
    [Step.insert "Worker", .insert "", .reload, .extend (ofList ["Worker", "Audio"])].foldlM Step.run
      (ofList ["Window", " ", "Dedicated Worker", "Window"]) = .ok e ∧
      e.contexts = ["Window", "Dedicated", "Worker", "Audio"] ∧ e.contexts.Nodup ∧
      Text.blank "Audio" = false := by
  obtain ⟨-, hruns, -, -⟩ := ordered_set
  obtain ⟨e, hrun, hcontexts, hnodup, hblank⟩ := hruns ["Window", " ", "Dedicated Worker", "Window"]
    [Step.insert "Worker", .insert "", .reload, .extend (ofList ["Worker", "Audio"])]
  have hfound : e.contexts = ["Window", "Dedicated", "Worker", "Audio"] := by
    rw [hcontexts]
    decide +kernel
  exact ⟨e, hrun, hfound, hnodup, hblank "Audio" (by simp [hfound])⟩

end Exposure

end IdlDecls
