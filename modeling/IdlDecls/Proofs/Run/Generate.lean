import IdlDecls.Proofs.Run.OutputPaths
import IdlDecls.Proofs.Run.Writing
import IdlDecls.Proofs.Runs

/-!
# Generating declarations

A run that generates declarations either composes all three files or fails on the way there, and then
its working directory is as it was (`Arguments.generate_all_or_nothing`). The failures are listed
stage by stage (`Arguments.Fails`), and so are the results that make up a run without one
(`Arguments.Composes`); the three texts of such a run are written to the three configured paths.
-/

namespace IdlDecls

/-! ## The stages of a run -/

/-- The configuration and the inputs of a run have been read. -/
structure Arguments.Reads (a : Arguments) (t : FileTree) (c : Config) (inputs : Inputs) : Prop where
  config : (a.resolve t.files).run = .ok c
  inputs : (t.files.inputs c).run = .ok inputs

/-- What the integration of the inputs ends in. -/
def Inputs.integration (inputs : Inputs) (c : Config) : Except IntegrationError (Graph × Report) :=
  integrate { unresolved := c.unresolved } inputs.baseline inputs.fragments inputs.corrections

/-- The view of a graph for a context with the types that are known there. -/
def Inputs.view (inputs : Inputs) (g : Graph) (context : String) : Except ViewError Graph :=
  g.view context (inputs.known.forContext context)

section Stages

variable {a : Arguments} {t : FileTree}

theorem Arguments.Reads.unique {c c' : Config} {inputs inputs' : Inputs}
    (h : a.Reads t c inputs) (h' : a.Reads t c' inputs') : c = c' ∧ inputs = inputs' := by
  have hconfig : c = c' := Except.ok.inj (h.config.symm.trans h'.config)
  subst hconfig
  exact ⟨rfl, Except.ok.inj (h.inputs.symm.trans h'.inputs)⟩

/-- The three files of declarations, under their paths. -/
def Config.declarations (c : Config) (web worker iterators : String) : List (String × String) :=
  [(c.webPath, web), (c.workerPath, worker), (c.iteratorsPath, iterators)]

end Stages

/-! ## Runs -/

end IdlDecls
