import IdlDecls.View.Reach
import Mathlib.Tactic.ByContra

/-!
# What a search reaches

`Links.Reachable` is reachability without a search: the roots, and whatever the definition of a
reachable name mentions. `Links.reach` lists the reachable names that some link mentions
(`mem_reach_iff`). The search keeps three invariants: what it has seen is reachable, no seen name is
forgotten, and what a seen name mentions is seen or pending.
-/

namespace IdlDecls.Links

/-- The names that are reached from the roots along links. -/
inductive Reachable (links : Links) (roots : List String) : String → Prop where
  | root {name : String} : name ∈ roots → Reachable links roots name
  | target {name target : String} : Reachable links roots name → target ∈ links.targetsOf name →
      Reachable links roots target

variable {links : Links}

theorem mem_targetsOf {name target : String} :
    target ∈ links.targetsOf name ↔ ∃ link ∈ links, link.source = name ∧ target ∈ link.targets := by
  simp only [targetsOf, List.mem_flatMap]
  refine exists_congr fun link => and_congr_right fun _ => ?_
  by_cases h : link.source = name
  · simp [h]
  · simp [h]

theorem mem_nodes {name : String} :
    name ∈ links.nodes ↔ ∃ link ∈ links, name = link.source ∨ name ∈ link.targets := by
  simp [nodes]

theorem source_mem_nodes {link : Link} (h : link ∈ links) : link.source ∈ links.nodes :=
  mem_nodes.2 ⟨link, h, Or.inl rfl⟩

theorem mem_nodes_of_targetsOf {name target : String} (h : target ∈ links.targetsOf name) :
    target ∈ links.nodes := by
  obtain ⟨link, hlink, -, htarget⟩ := mem_targetsOf.1 h
  exact mem_nodes.2 ⟨link, hlink, Or.inr htarget⟩

/-! ## The search -/

/-- **Soundness.** What holds of the names a search starts from, and of what the definitions of its
names mention, holds of every name that it lists. -/
theorem explore_sound {P : String → Prop}
    (hstep : ∀ name, P name → ∀ target ∈ links.targetsOf name, P target)
    (pending seen : List String) (hpending : ∀ name ∈ pending, P name)
    (hseen : ∀ name ∈ seen, P name) : ∀ name ∈ links.explore pending seen, P name := by
  fun_induction links.explore pending seen with
  | case1 seen => exact hseen
  | case2 name rest seen _ ih =>
    have hname : P name := hpending name (by simp)
    refine ih (fun x hx => ?_) (fun x hx => ?_)
    · rcases List.mem_append.1 hx with hx | hx
      · exact hstep name hname x hx
      · exact hpending x (by simp [hx])
    · rcases List.mem_cons.1 hx with rfl | hx
      · exact hname
      · exact hseen x hx
  | case3 name rest seen _ ih => exact ih (fun x hx => hpending x (by simp [hx])) hseen

theorem explore_mem_nodes (pending seen : List String) (hseen : ∀ name ∈ seen, name ∈ links.nodes) :
    ∀ name ∈ links.explore pending seen, name ∈ links.nodes := by
  fun_induction links.explore pending seen with
  | case1 seen => exact hseen
  | case2 name rest seen h ih =>
    refine ih fun x hx => ?_
    rcases List.mem_cons.1 hx with rfl | hx
    · exact h.1
    · exact hseen x hx
  | case3 name rest seen _ ih => exact ih hseen

/-- A seen name stays. -/
theorem mem_explore_of_seen (pending seen : List String) :
    ∀ name ∈ seen, name ∈ links.explore pending seen := by
  fun_induction links.explore pending seen with
  | case1 seen => exact fun _ h => h
  | case2 name rest seen _ ih => exact fun x hx => ih x (by simp [hx])
  | case3 name rest seen _ ih => exact ih

/-- A pending name that some link mentions is visited. -/
theorem mem_explore_of_pending (pending seen : List String) :
    ∀ name ∈ pending, name ∈ links.nodes → name ∈ links.explore pending seen := by
  fun_induction links.explore pending seen with
  | case1 seen => simp
  | case2 name rest seen _ ih =>
    intro x hx hnode
    rcases List.mem_cons.1 hx with rfl | hx
    · exact mem_explore_of_seen _ _ x (by simp)
    · exact ih x (by simp [hx]) hnode
  | case3 name rest seen h ih =>
    intro x hx hnode
    rcases List.mem_cons.1 hx with rfl | hx
    · have hseen : x ∈ seen := by
        by_contra hnot
        exact h ⟨hnode, hnot⟩
      exact mem_explore_of_seen _ _ x hseen
    · exact ih x hx hnode

/-- **Completeness.** If what seen names mention is seen or pending at the start, a search ends with
a list that holds whatever its names mention. -/
theorem explore_closed (pending seen : List String)
    (h : ∀ name ∈ seen, ∀ target ∈ links.targetsOf name, target ∈ seen ∨ target ∈ pending) :
    ∀ name ∈ links.explore pending seen, ∀ target ∈ links.targetsOf name,
      target ∈ links.explore pending seen := by
  fun_induction links.explore pending seen with
  | case1 seen =>
    intro name hname target htarget
    simpa using h name hname target htarget
  | case2 name rest seen _ ih =>
    refine ih fun x hx target htarget => ?_
    rcases List.mem_cons.1 hx with rfl | hx
    · exact Or.inr (by simp [htarget])
    · rcases h x hx target htarget with hseen | hpending
      · exact Or.inl (by simp [hseen])
      · rcases List.mem_cons.1 hpending with rfl | hrest
        · exact Or.inl (by simp)
        · exact Or.inr (by simp [hrest])
  | case3 name rest seen hvisit ih =>
    refine ih fun x hx target htarget => ?_
    rcases h x hx target htarget with hseen | hpending
    · exact Or.inl hseen
    · rcases List.mem_cons.1 hpending with rfl | hrest
      · -- a target is a node, so it was passed over because it had been seen
        by_contra hnot
        exact hvisit ⟨mem_nodes_of_targetsOf htarget, fun hseen => hnot (Or.inl hseen)⟩
      · exact Or.inr hrest

/-- **The search lists exactly the reachable names that some link mentions.** -/
theorem mem_reach_iff {roots : List String} {name : String} :
    name ∈ links.reach roots ↔ name ∈ links.nodes ∧ links.Reachable roots name := by
  constructor
  · intro h
    refine ⟨explore_mem_nodes roots [] (by simp) name h, ?_⟩
    exact explore_sound (fun _ hx _ ht => .target hx ht) roots [] (fun _ hx => .root hx) (by simp)
      name h
  · rintro ⟨hnode, hreach⟩
    induction hreach with
    | root hroot => exact mem_explore_of_pending roots [] _ hroot hnode
    | @target source target _ htarget ih =>
      obtain ⟨link, hlink, hsource, -⟩ := mem_targetsOf.1 htarget
      have hsrc := ih (hsource ▸ source_mem_nodes hlink)
      exact explore_closed roots [] (by simp) source hsrc target htarget

end IdlDecls.Links
