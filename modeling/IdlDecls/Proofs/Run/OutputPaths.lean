import IdlDecls.Proofs.Text.Pieces
import IdlDecls.Run.Config
import Mathlib.Data.List.Basic

/-!
# The places of the outputs

Two paths lead to the same place if both start at the root or neither does and they go through the
same names. A configuration is refused if two outputs have one name (`Config.fault?_eq_none_iff`),
but it is the paths behind the output directory that have to differ. `Path.same_join_iff` says which
names lead to one place from a directory, and `Config.outputsApart_iff` that these and no others let
two outputs of a configuration meet. File names without a slash never do
(`Config.outputsApart_of_plain`); names that go through a dot or start at the root may
(`Config.layered_outputs_meet`).
-/

namespace IdlDecls

/-! ## Paths -/

namespace Path

/-- The names of a path without any idle part. -/
def steps (path : String) : List String := (parts path).filter (!isIdle ·)

/-- Two paths lead to the same place. -/
def Same (p q : String) : Prop := isAbsolute p = isAbsolute q ∧ components p = components q

instance (p q : String) : Decidable (Same p q) := inferInstanceAs (Decidable (_ ∧ _))

/-- Whether a path begins with a dot that stays. -/
def startsHere (path : String) : Bool := (parts path).head? = some "."

theorem parts_ne_nil (path : String) : parts path ≠ [] := by
  simp [parts, Text.pieces_ne_nil]

theorem components_eq (path : String) :
    components path = (if startsHere path then ["."] else []) ++ steps path := by
  rw [components, startsHere, steps]
  split
  · rename_i rest hparts
    simp [hparts, isIdle]
  · rename_i hparts
    have hhead : (parts path).head? ≠ some "." := by
      intro h
      obtain ⟨rest, hrest⟩ := List.head?_eq_some_iff.1 h
      exact hparts rest hrest
    simp [hhead]

/-- A slash divides the parts of a path. -/
theorem parts_append_slash {path front back : String}
    (h : path.toList = front.toList ++ '/' :: back.toList) :
    parts path = parts front ++ parts back := by
  have hslash : (fun c : Char => decide (c = '/')) '/' = true := by decide
  rw [parts, h, Text.pieces_append_cut hslash, List.map_append, parts, parts]

/-- A path from the root begins with an empty part. -/
theorem startsHere_of_isAbsolute {path : String} (h : isAbsolute path = true) :
    startsHere path = false := by
  obtain ⟨rest, hrest⟩ := List.head?_eq_some_iff.1 (of_decide_eq_true h)
  have hparts : parts path = parts "" ++ parts (String.ofList rest) :=
    parts_append_slash (by simpa using hrest)
  have hempty : parts "" = [""] := by decide
  rw [startsHere, hparts, hempty]
  simp

/-- A directory and the parts that a name puts behind it: the slash between them may end the
directory or be put there. -/
theorem parts_join {directory name : String} (hdir : directory ≠ "")
    (hname : isAbsolute name = false) :
    ∃ front, front ≠ [] ∧ (parts directory = front ∨ parts directory = front ++ [""]) ∧
      parts (join directory name) = front ++ parts name := by
  rw [join, if_neg (by simp [hname])]
  by_cases hend : endsInSlash directory = true
  · obtain ⟨cs, hcs⟩ := List.getLast?_eq_some_iff.1 (of_decide_eq_true hend)
    have hempty : parts "" = [""] := by decide
    refine ⟨parts (String.ofList cs), parts_ne_nil _, Or.inr ?_, ?_⟩
    · rw [← hempty]
      exact parts_append_slash (by simpa using hcs)
    · rw [if_pos (Or.inr hend)]
      exact parts_append_slash (by simp [hcs])
  · refine ⟨parts directory, parts_ne_nil _, Or.inl rfl, ?_⟩
    rw [if_neg (by simp [hdir, hend])]
    exact parts_append_slash (by simp)

theorem isAbsolute_join {directory name : String} (hdir : directory ≠ "") :
    isAbsolute (join directory name) = (isAbsolute directory || isAbsolute name) := by
  by_cases hname : isAbsolute name = true
  · rw [join_of_isAbsolute hname, hname, Bool.or_true]
  · have hcs : directory.toList ≠ [] := by simpa using hdir
    rw [join, if_neg hname, Bool.eq_false_iff.2 hname, Bool.or_false]
    split
    · rw [isAbsolute, String.toList_append, List.head?_append_of_ne_nil _ hcs, isAbsolute]
    · rw [isAbsolute, String.toList_append, String.toList_append, List.append_assoc,
        List.head?_append_of_ne_nil _ hcs, isAbsolute]

/-- **A name that does not start at the root goes on from the directory.** -/
theorem components_join {directory name : String} (hdir : directory ≠ "")
    (hname : isAbsolute name = false) :
    components (join directory name) = components directory ++ steps name := by
  obtain ⟨front, hfront, hdirectory, hjoin⟩ := parts_join hdir hname
  have hhead : startsHere (join directory name) = startsHere directory := by
    rw [startsHere, startsHere, hjoin, List.head?_append_of_ne_nil _ hfront]
    rcases hdirectory with h | h
    · rw [h]
    · rw [h, List.head?_append_of_ne_nil _ hfront]
  have hsteps : steps (join directory name) = steps directory ++ steps name := by
    rw [steps, steps, steps, hjoin, List.filter_append]
    rcases hdirectory with h | h
    · rw [h]
    · simp [h, isIdle]
  rw [components_eq, hhead, hsteps, ← List.append_assoc, ← components_eq]

theorem components_of_isAbsolute {path : String} (h : isAbsolute path = true) :
    components path = steps path := by
  rw [components_eq, startsHere_of_isAbsolute h]
  rfl

/-- Two names lead from a directory to one place: both go on from the directory or both start at the
root, through the same names, or one starts at the root and goes through the directory. -/
def SameFrom (directory name other : String) : Prop :=
  match isAbsolute name, isAbsolute other with
  | true, true | false, false => steps name = steps other
  | true, false => isAbsolute directory = true ∧ steps name = steps directory ++ steps other
  | false, true => isAbsolute directory = true ∧ steps directory ++ steps name = steps other

/-- **Which names meet.** -/
theorem same_join_iff {directory name other : String} (hdir : directory ≠ "") :
    Same (join directory name) (join directory other) ↔ SameFrom directory name other := by
  rw [Same, SameFrom, isAbsolute_join hdir, isAbsolute_join hdir]
  cases hname : isAbsolute name <;> cases hother : isAbsolute other
  · simp [components_join hdir hname, components_join hdir hother]
  · rw [components_join hdir hname, join_of_isAbsolute hother, components_of_isAbsolute hother,
      Bool.or_false, Bool.or_true]
    exact and_congr_right fun h => by rw [components_of_isAbsolute h]
  · rw [components_join hdir hother, join_of_isAbsolute hname, components_of_isAbsolute hname,
      Bool.or_false, Bool.or_true, eq_comm]
    exact and_congr_right fun h => by rw [components_of_isAbsolute h]
  · simp [join_of_isAbsolute hname, join_of_isAbsolute hother, components_of_isAbsolute hname,
      components_of_isAbsolute hother]

section Plain

variable {directory name other : String}

theorem parts_of_plain (h : '/' ∉ name.toList) : parts name = [name] := by
  have huncut : ∀ c ∈ name.toList, decide (c = '/') = false := by
    intro c hc
    refine decide_eq_false ?_
    rintro rfl
    exact h hc
  rw [parts, Text.pieces_of_not_cut huncut]
  simp

theorem isAbsolute_of_plain (h : '/' ∉ name.toList) : isAbsolute name = false :=
  decide_eq_false fun hhead => h (List.mem_of_head? hhead)

/-- A name without a slash is one step, or none if it is a dot. -/
theorem steps_of_plain (h : '/' ∉ name.toList) (hne : name ≠ "") :
    steps name = if name = "." then [] else [name] := by
  rw [steps, parts_of_plain h]
  by_cases hdot : name = "."
  · simp [hdot, isIdle]
  · simp [hdot, hne, isIdle]

theorem components_of_plain (h : '/' ∉ name.toList) (hne : name ≠ "") :
    components name = [name] := by
  rw [components_eq, startsHere, parts_of_plain h, steps_of_plain h hne]
  by_cases hdot : name = "."
  · simp [hdot]
  · simp [hdot]

/-- Different names without a slash lead to different places. -/
theorem not_same_join_of_plain (h : '/' ∉ name.toList) (h' : '/' ∉ other.toList) (hname : name ≠ "")
    (hother : other ≠ "") (hne : name ≠ other) :
    ¬ Same (join directory name) (join directory other) := by
  by_cases hdir : directory = ""
  · rw [hdir, join_empty_left, join_empty_left, Same, components_of_plain h hname,
      components_of_plain h' hother]
    rintro ⟨-, heq⟩
    exact hne (List.singleton_inj.1 heq)
  · intro hsame
    have hsteps : steps name = steps other := by
      rw [same_join_iff hdir, SameFrom, isAbsolute_of_plain h, isAbsolute_of_plain h'] at hsame
      exact hsame
    rw [steps_of_plain h hname, steps_of_plain h' hother] at hsteps
    split_ifs at hsteps with hdot hdot'
    · exact hne (hdot.trans hdot'.symm)
    · exact hne (List.singleton_inj.1 hsteps)

end Plain

end Path

/-! ## Configurations -/

namespace Config

/-- What a usable configuration keeps to: no name is blank, and no two outputs have one name. -/
theorem fault?_eq_none_iff {c : Config} :
    c.fault? = none ↔
      (∀ e ∈ c.inputs.entries ++ c.outputs.entries, Text.blank e.2 = false) ∧
        (c.outputs.entries.map (·.2)).Nodup := by
  have hblank : ∀ l, blankFault? l = none ↔ ∀ e ∈ l, Text.blank e.2 = false := by
    intro l
    simp [blankFault?, List.find?_eq_none]
  have hshared : ∀ l, sharedFault? l = none ↔ (l.map (·.2)).Nodup := by
    intro l
    induction l with
    | nil => simp [sharedFault?]
    | cons e rest ih =>
      obtain ⟨key, name⟩ := e
      rw [sharedFault?, List.map_cons, List.nodup_cons, ← ih]
      split
      · rename_i other hother
        have hmem := List.mem_of_find?_eq_some hother
        have hname : other.2 = name := by simpa using List.find?_some hother
        simp only [reduceCtorEq, false_iff, not_and_or, not_not]
        exact Or.inl (List.mem_map.2 ⟨other, hmem, hname⟩)
      · rename_i hnone
        rw [List.find?_eq_none] at hnone
        have hfresh : name ∉ rest.map (·.2) := by
          intro hmem
          obtain ⟨other, hother, rfl⟩ := List.mem_map.1 hmem
          exact hnone other hother (by simp)
        simp [hfresh]
  rw [fault?, Option.or_eq_none_iff, hblank, hshared]

/-- The paths that the outputs are written to, in the order of writing. -/
def outputPaths (c : Config) : List String := [c.webPath, c.workerPath, c.iteratorsPath]

theorem outputPaths_eq (c : Config) :
    c.outputPaths = (c.outputs.entries.map (·.2)).map (Path.join c.outputDir) := rfl

/-- The outputs are written to three places. -/
def OutputsApart (c : Config) : Prop := c.outputPaths.Pairwise fun p q => ¬ Path.Same p q

instance (c : Config) : Decidable c.OutputsApart := inferInstanceAs (Decidable (List.Pairwise _ _))

/-- **Which configurations keep their outputs apart**: those in which no two names lead to one place
from the output directory. -/
theorem outputsApart_iff {c : Config} (hdir : c.outputDir ≠ "") :
    c.OutputsApart ↔
      (c.outputs.entries.map (·.2)).Pairwise fun n m => ¬ Path.SameFrom c.outputDir n m := by
  rw [OutputsApart, outputPaths_eq, List.pairwise_map]
  simp only [Path.same_join_iff hdir]

/-- **A usable configuration keeps its outputs apart if their names are file names**, whatever the
output directory is. -/
theorem outputsApart_of_plain {c : Config} (h : c.fault? = none)
    (hplain : ∀ e ∈ c.outputs.entries, '/' ∉ e.2.toList) : c.OutputsApart := by
  obtain ⟨hblank, hnodup⟩ := fault?_eq_none_iff.1 h
  have hne : ∀ name ∈ c.outputs.entries.map (·.2), name ≠ "" := by
    rintro name hname rfl
    obtain ⟨e, he, hempty⟩ := List.mem_map.1 hname
    have hnonblank := hblank e (List.mem_append_right _ he)
    rw [hempty, Text.blank_empty] at hnonblank
    cases hnonblank
  have hslash : ∀ name ∈ c.outputs.entries.map (·.2), '/' ∉ name.toList := by
    intro name hname
    obtain ⟨e, he, rfl⟩ := List.mem_map.1 hname
    exact hplain e he
  rw [OutputsApart, outputPaths_eq, List.pairwise_map]
  refine hnodup.imp_of_mem fun hname hother hdiff => ?_
  exact Path.not_same_join_of_plain (hslash _ hname) (hslash _ hother) (hne _ hname) (hne _ hother)
    hdiff

/-- A configuration with an output under its path and another under the path from the root that leads
there. -/
def layered : Config where
  outputDir := "/out"
  outputs := { web := "dom.d.ts", worker := "/out/dom.d.ts" }

/-- The configuration is usable, and two outputs go to one path. -/
theorem layered_outputs_meet :
    layered.fault? = none ∧ layered.webPath = "/out/dom.d.ts" ∧
      layered.workerPath = "/out/dom.d.ts" ∧ ¬ layered.OutputsApart := by
  decide +kernel

/-- A name with a dot in front is another name for the same place. -/
example :
    let c : Config := { outputs := { web := "dom.d.ts", worker := "./dom.d.ts" } }
    c.fault? = none ∧ c.webPath ≠ c.workerPath ∧ Path.Same c.webPath c.workerPath := by
  decide +kernel

end Config

end IdlDecls
