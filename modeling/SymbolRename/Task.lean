/-!
# Tasks

Work on a state that may fail. A task that fails leaves the state as it is at the time.
-/

set_option autoImplicit false

namespace SymbolRename

/-- Can fail with an `ε` and works on a `σ`. -/
abbrev Task (σ ε : Type) := ExceptT ε (StateM σ)

namespace Task

/-- Something that can fail and touches no state, its cause told in another way. -/
def orFault {σ ε δ α : Type} (wrap : δ → ε) : Except δ α → Task σ ε α
  | .ok a => return a
  | .error e => throw (wrap e)

def onPart {σ τ ε δ α : Type} (view : σ → τ) (update : τ → σ → σ) (wrap : δ → ε)
    (task : Task τ δ α) : Task σ ε α := do
  let s ← get
  let (r, t) := task.run (view s)
  set (update t s)
  orFault wrap r

end Task
end SymbolRename
