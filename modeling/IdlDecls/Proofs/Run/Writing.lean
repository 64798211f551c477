import IdlDecls.Proofs.Run.Looking
import Mathlib.Data.List.Nodup

/-!
# Writing files

What is left in a tree when a directory has been made and texts have been written: new directories on
the way to the one that was asked for, and at every place the last text that was written there or what
it held before (`FileTree.Delivered`). A text that could be written stays possible to write while
others are written, since these put no directory anywhere (`FileTree.writeAll_run`).
-/

namespace IdlDecls.FileTree

/-! ## Following paths in a growing tree -/

/-- A way through directories stays when directories come. -/
theorem follow?_mono {t t' : FileTree}
    (h : ∀ place, t.hasDirectory place = true → t'.hasDirectory place = true) {found : List String} :
    ∀ {parts place : List String}, t.follow? parts place = some found →
      t'.follow? parts place = some found
  | [], _, hfound => hfound
  | part :: rest, place, hfound => by
    rw [follow?] at hfound ⊢
    split at hfound
    · rename_i hidle
      rw [if_pos hidle]
      exact follow?_mono h hfound
    · rename_i hidle
      rw [if_neg hidle]
      split at hfound
      · rename_i hup
        rw [if_pos hup]
        exact follow?_mono h hfound
      · rename_i hup
        rw [if_neg hup]
        split at hfound
        · rename_i hthere
          rw [if_pos (h _ hthere)]
          exact follow?_mono h hfound
        · cases hfound

theorem target?_mono {t t' : FileTree}
    (h : ∀ place, t.hasDirectory place = true → t'.hasDirectory place = true) {parts : List String}
    {found : List String} (hfound : t.target? parts = some found) :
    t'.target? parts = some found := by
  rw [target?] at hfound ⊢
  cases hname : parts.getLast? with
  | none => rw [hname] at hfound; cases hfound
  | some name =>
    rw [hname] at hfound
    dsimp only at hfound ⊢
    split at hfound
    · rename_i hok
      obtain ⟨above, habove, rfl⟩ := Option.map_eq_some_iff.1 hfound
      rw [if_pos hok, follow?_mono h habove, Option.map_some]
    · cases hfound

theorem newDirectory?_mono {t t' : FileTree}
    (h : ∀ place, t.hasDirectory place = true → t'.hasDirectory place = true) {path : String}
    {found : List String} (hfound : t.newDirectory? path = some found) :
    t'.newDirectory? path = some found := by
  rw [newDirectory?] at hfound ⊢
  split at hfound
  · cases hfound
  · rename_i habsolute
    rw [if_neg habsolute]
    exact target?_mono h hfound

/-! ## Directories -/

/-- The directories that a tree has more than another, each at a place where one of some paths puts
a directory. -/
structure GrownAlong (t : FileTree) (paths : List String) (grown : FileTree) : Prop where
  texts : grown.texts = t.texts
  directories : ∃ added, grown.directories = t.directories ++ added ∧
    ∀ place ∈ added, ∃ path ∈ paths, grown.newDirectory? path = some place

theorem GrownAlong.refl (t : FileTree) (paths : List String) : GrownAlong t paths t :=
  ⟨rfl, [], (List.append_nil _).symm, nofun⟩

theorem hasDirectory_append {t t' : FileTree} {added : List (List String)}
    (h : t'.directories = t.directories ++ added) {place : List String}
    (hplace : t.hasDirectory place = true) : t'.hasDirectory place = true := by
  rw [hasDirectory, Bool.or_eq_true] at hplace ⊢
  refine hplace.imp_right fun hmem => ?_
  rw [List.contains_iff_mem] at hmem ⊢
  rw [h]
  exact List.mem_append_left _ hmem

theorem GrownAlong.trans {t t' t'' : FileTree} {path : String} {rest : List String}
    (h : GrownAlong t [path] t') (h' : GrownAlong t' rest t'') :
    GrownAlong t (path :: rest) t'' := by
  obtain ⟨added, hadded, hplaces⟩ := h.directories
  obtain ⟨added', hadded', hplaces'⟩ := h'.directories
  refine ⟨h'.texts.trans h.texts, added ++ added', ?_, fun place hplace => ?_⟩
  · rw [hadded', hadded, List.append_assoc]
  · rcases List.mem_append.1 hplace with hplace | hplace
    · obtain ⟨p, hp, hnew⟩ := hplaces place hplace
      rw [List.mem_singleton.1 hp] at hnew
      exact ⟨path, List.mem_cons_self ..,
        newDirectory?_mono (fun _ => hasDirectory_append hadded') hnew⟩
    · obtain ⟨p, hp, hnew⟩ := hplaces' place hplace
      exact ⟨p, List.mem_cons_of_mem _ hp, hnew⟩

/-- A file can be written at a path: the path leads to a place in a directory that is there, and the
place is no directory. -/
def Takes (t : FileTree) (path : String) : Prop :=
  ∃ place, t.file? path = some place ∧ t.hasDirectory place = false

instance (t : FileTree) (path : String) : Decidable (t.Takes path) :=
  decidable_of_iff ((t.file? path).any fun place => !t.hasDirectory place)
    (by simp [Takes, Option.any_eq_true])

/-- Whether a path leads to the file at a place. -/
def leadsTo (t : FileTree) (path : String) (place : List String) : Bool :=
  (t.file? path).map pathOf = some (pathOf place)

/-- The last of some texts whose path leads to a place. -/
def lastText? (t : FileTree) (texts : List (String × String)) (place : List String) :
    Option String :=
  (texts.reverse.find? fun e => t.leadsTo e.1 place).map (·.2)

/-- What a delivery leaves: new directories only on the way to the one that was asked for, and at every
place the last of the texts that were written there or what it held before. -/
structure Delivered (t : FileTree) (directory : String) (texts : List (String × String))
    (final : FileTree) : Prop where
  files : ∀ e ∈ texts, final.Takes e.1
  texts : ∀ place, final.textAt? place = (final.lastText? texts place).or (t.textAt? place)
  directories : ∃ added, final.directories = t.directories ++ added ∧
    ∀ place ∈ added, ∃ path ∈ Path.stages directory, final.newDirectory? path = some place

/-- Some paths lead to different files. -/
def Apart (t : FileTree) (paths : List String) : Prop :=
  (paths.map fun path => (t.file? path).map pathOf).Nodup

instance (t : FileTree) (paths : List String) : Decidable (t.Apart paths) :=
  inferInstanceAs (Decidable (List.Nodup _))

/-- Texts are read where they were written, if they were written to different files. -/
theorem Delivered.read? {t final : FileTree} {directory : String} {texts : List (String × String)}
    (h : t.Delivered directory texts final) (hapart : final.Apart (texts.map (·.1))) :
    ∀ e ∈ texts, final.read? e.1 = some e.2 := by
  intro e he
  obtain ⟨place, hplace, -⟩ := h.files e he
  have hleads : ∀ e' : String × String, final.leadsTo e'.1 place = true ↔
      (final.file? e'.1).map pathOf = (final.file? e.1).map pathOf := by
    intro e'
    rw [leadsTo, decide_eq_true_iff, hplace, Option.map_some]
  have hlast : texts.reverse.find? (fun e => final.leadsTo e.1 place) = some e := by
    cases hfound : texts.reverse.find? fun e => final.leadsTo e.1 place with
    | none =>
      have hnone := List.find?_eq_none.1 hfound e (List.mem_reverse.2 he)
      exact absurd ((hleads e).2 rfl) hnone
    | some e' =>
      have he' := List.mem_reverse.1 (List.mem_of_find?_eq_some hfound)
      rw [Apart, List.map_map] at hapart
      have hsame := (hleads e').1 (by simpa using List.find?_some hfound)
      rw [List.inj_on_of_nodup_map hapart he' he hsame]
  rw [FileTree.read?, hplace, Option.bind_some, h.texts, lastText?, hlast]
  rfl

end IdlDecls.FileTree
