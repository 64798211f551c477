import IdlDecls.Integration.Exposing

/-!
# What a context sees

An exposure is visible in a context that it names; the context `Worker` also stands for the contexts
whose names end in it. Without an exposure, things are visible in the default context alone.
`Interface.scopedTo` drops the members that a context does not see.
-/

namespace IdlDecls

/-- The context that sees what has no exposure (`DEFAULT_CONTEXT`). -/
def defaultContext : String := "Window"

/-- The context that stands for every kind of worker. -/
def workerContext : String := "Worker"

/-- Whether a context is one of the workers. -/
def isWorker (context : String) : Bool :=
  workerContext.toList.isSuffixOf context.toList

/-- Whether a context that is named in an exposure makes it visible in a context (the test in
`is_exposed_in`). -/
def coversContext (named context : String) : Bool :=
  named = context || (context = workerContext && isWorker named)

/-- Whether something with an exposure is visible in a context (`is_exposed_in`). -/
def isExposedIn (exposure : Option Exposure) (context : String) : Bool :=
  match Exposure.nonempty? exposure with
  | none => context = defaultContext
  | some exposure => exposure.contexts.any fun named => coversContext named context

/-- Whether a member is visible in a context: without an exposure of its own or of its parent it
always is (`visible` in `scoped`). -/
def isMemberVisible (context : String) (parent own : Option Exposure) : Bool :=
  match effectiveExposure own parent with
  | none => true
  | some exposure => isExposedIn (some exposure) context

/-- An interface without the members that a context does not see (`scoped`). Where `inherits` is
false, members without an exposure of their own stay. -/
def Interface.scopedTo (context : String) (inherits : Bool) (i : Interface) : Interface :=
  let visible := isMemberVisible context (if inherits then i.exposed else none)
  { i with
    constants := i.constants.map (·.filter fun _ c => visible c.exposed)
    methods := i.methods.map (·.filter fun _ m => visible m.exposed)
    properties := i.properties.map (·.filter fun _ p => visible p.exposed)
    constructor := i.constructor.filter fun c => visible c.exposed }

end IdlDecls
