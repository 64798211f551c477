import IdlDecls.Text.Blank

/-!
# Exposures

An exposure is the ordered set of execution contexts (`Window`, `Worker`, `DedicatedWorker`, …) that
something is visible in. No context is blank and none repeats; both are part of the type. The written
form joins the contexts with one space.
-/

namespace IdlDecls

/-- An ordered set of execution contexts. -/
structure Exposure where
  /-- The contexts in the order in which they were first named. -/
  contexts : List String
  /-- No context repeats. -/
  nodup : contexts.Nodup
  /-- No context is blank. -/
  nonblank : ∀ c ∈ contexts, Text.blank c = false

namespace Exposure

theorem ext_contexts {a b : Exposure} (h : a.contexts = b.contexts) : a = b := by
  cases a; cases b; cases h; rfl

instance : DecidableEq Exposure := fun a b =>
  decidable_of_iff (a.contexts = b.contexts) ⟨ext_contexts, fun h => h ▸ rfl⟩

/-- The exposure without contexts. -/
def empty : Exposure := ⟨[], .nil, by simp⟩

instance : EmptyCollection Exposure := ⟨empty⟩
instance : Inhabited Exposure := ⟨empty⟩

/-- Whether there are no contexts (`is_empty`). -/
def isEmpty (e : Exposure) : Bool := e.contexts.isEmpty

/-- Whether a context is in the set (`contains`). -/
def contains (e : Exposure) (context : String) : Bool := e.contexts.contains context

/-- Whether inserting a context changes the set: it is neither blank nor present. -/
def accepts (e : Exposure) (context : String) : Bool :=
  !Text.blank context && !e.contains context

/-- Adds a context at the end, unless it is blank or present (`insert`). -/
def insert (e : Exposure) (context : String) : Exposure :=
  if h : e.accepts context = true then
    { contexts := e.contexts ++ [context]
      nodup := by
        simp only [accepts, contains, Bool.and_eq_true, Bool.not_eq_true', List.contains_eq_mem,
          decide_eq_false_iff_not] at h
        simp only [List.nodup_append, e.nodup, List.nodup_cons, List.not_mem_nil, not_false_eq_true,
          List.nodup_nil, and_self, List.mem_cons, or_false, ne_eq, forall_eq, true_and]
        exact fun c hc heq => h.2 (heq ▸ hc)
      nonblank := by
        simp only [accepts, Bool.and_eq_true, Bool.not_eq_true'] at h
        simp only [List.mem_append, List.mem_cons, List.not_mem_nil, or_false]
        rintro c (hc | rfl)
        · exact e.nonblank c hc
        · exact h.1 }
  else e

/-- Adds contexts one after the other. -/
def insertAll (e : Exposure) (contexts : List String) : Exposure :=
  contexts.foldl insert e

/-- Adds the contexts of another exposure in their order (`extend`). -/
def extend (e other : Exposure) : Exposure :=
  e.insertAll other.contexts

/-- The exposure of a list of contexts, without the blank and the repeated ones (`new`). -/
def ofList (contexts : List String) : Exposure :=
  empty.insertAll contexts

/-- The exposure of a text of contexts between blanks (`deserialize` of a text). -/
def ofText (text : String) : Exposure :=
  ofList (Text.words text)

/-- The written form: the contexts with a space between two of them (`fmt`). -/
def text (e : Exposure) : String :=
  " ".intercalate e.contexts

/-! ## The contexts after each operation -/

theorem contexts_insert (e : Exposure) (context : String) :
    (e.insert context).contexts =
      if e.accepts context then e.contexts ++ [context] else e.contexts := by
  unfold insert
  split <;> simp_all

theorem insert_of_not_accepts {e : Exposure} {context : String} (h : e.accepts context = false) :
    e.insert context = e := by
  simp [insert, h]

/-- An optional exposure, where the empty one counts as absent. -/
def nonempty? (e : Option Exposure) : Option Exposure :=
  e.filter fun e => !e.isEmpty

end Exposure

end IdlDecls
