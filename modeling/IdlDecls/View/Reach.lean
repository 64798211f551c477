/-!
# Reaching names by references

A link says which names the definition of a name mentions. `Links.reach` lists the names that are
reached from some roots; a root that no link mentions, as source or as target, is not reached. The
search visits a name once, so the number of mentioned names that are not yet seen bounds it.
-/

namespace IdlDecls

/-- The names that the definition of a name mentions (`link`). -/
structure Link where
  source : String
  targets : List String
deriving DecidableEq, Repr

/-- The links of a graph (`TypeGraph`). -/
abbrev Links := List Link

namespace Links

/-- Every name that a link mentions (`node`). -/
def nodes (links : Links) : List String :=
  links.flatMap fun link => link.source :: link.targets

/-- The names that the definitions of a name mention. -/
def targetsOf (links : Links) (name : String) : List String :=
  links.flatMap fun link => if link.source = name then link.targets else []

/-- How many of the mentioned names are not yet seen. -/
def unseen (links : Links) (seen : List String) : Nat :=
  links.nodes.countP fun name => decide (name ∉ seen)

/-- Seeing a mentioned name for the first time leaves fewer unseen. -/
theorem unseen_cons_lt {links : Links} {seen : List String} {name : String}
    (hnode : name ∈ links.nodes) (hseen : name ∉ seen) :
    links.unseen (name :: seen) < links.unseen seen := by
  unfold unseen
  generalize links.nodes = l at hnode
  have hle : ∀ l : List String, l.countP (fun x => decide (x ∉ name :: seen)) ≤
      l.countP (fun x => decide (x ∉ seen)) := fun l =>
    List.countP_mono_left fun x _ h => by simp_all
  induction l with
  | nil => simp at hnode
  | cons x rest ih =>
    have hrest := hle rest
    rw [List.countP_cons, List.countP_cons]
    by_cases hx : x = name
    · subst hx
      rw [if_neg (by simp), if_pos (by simp [hseen])]
      omega
    · have := ih ((List.mem_cons.1 hnode).resolve_left (Ne.symm hx))
      have hhead : decide (x ∉ name :: seen) = decide (x ∉ seen) := by simp [hx]
      rw [hhead]
      omega

/-- Visits the pending names and what they reach, and adds them to those already seen (the search in
`reachable`). -/
def explore (links : Links) : (pending seen : List String) → List String
  | [], seen => seen
  | name :: rest, seen =>
    if name ∈ links.nodes ∧ name ∉ seen then
      explore links (links.targetsOf name ++ rest) (name :: seen)
    else explore links rest seen
termination_by pending seen => (links.unseen seen, pending.length)
decreasing_by
  · rename_i h
    exact Prod.Lex.left _ _ (unseen_cons_lt h.1 h.2)
  · exact Prod.Lex.right _ (by simp)

/-- The names that are reached from some roots (`reachable`). -/
def reach (links : Links) (roots : List String) : List String :=
  explore links roots []

end Links

end IdlDecls
