import SymbolRename.Directive
import SymbolRename.Function
import SymbolRename.Notice
import SymbolRename.Task

/-!
# Batches of renames

Directives are carried out one after another on a function that some host program holds. For each
of them the collections are asked for anew, so it sees the names that the ones before it made, and
only the first symbol of the old name is renamed. A directive that the host refuses does not stop
the batch; anything else that goes wrong does.
-/

set_option autoImplicit false

namespace SymbolRename

/-- A program that holds a function. Its symbols are known by a `ρ`; reading their names and sources
changes nothing. Giving a symbol a name may be refused for a reason. -/
structure Host (σ ε ρ : Type) where
  functionName : σ → Text
  locals : Task σ ε (List ρ)
  parameters : Task σ ε (List ρ)
  nameOf : σ → ρ → Text
  sourceOf : σ → ρ → Text
  setName : ρ → Text → Text → Task σ ε (Option Text)

inductive Outcome where
  | applied
  /-- No symbol had the old name at the time. -/
  | skipped
  | rejected (kind : SymbolKind) (reason : Text)
deriving DecidableEq

namespace Batch

/-- What became of each directive, in order. The number of those applied is the length of `applied`:
both grow by one whenever a directive is carried out. -/
abbrev Record := List (Directive × Outcome)

/-- The first symbol of a name, local variables before parameters. -/
def target {σ ε ρ : Type} (h : Host σ ε ρ) (name : Text) :
    Task σ ε (Option (SymbolKind × ρ)) := do
  let locals ← h.locals
  let parameters ← h.parameters
  let s ← get
  match locals.find? (h.nameOf s · = name) with
  | some r => return some (.localVariable, r)
  | none => return (parameters.find? (h.nameOf s · = name)).map (.parameter, ·)

/-- Carries one directive out; the source of the symbol stays. -/
def step {σ ε ρ : Type} (h : Host σ ε ρ) (d : Directive) : Task σ ε Outcome := do
  match ← target h d.oldName with
  | none => return .skipped
  | some (kind, r) =>
    match ← h.setName r d.newName (h.sourceOf (← get) r) with
    | none => return .applied
    | some reason => return .rejected kind reason

def notice? (function : Text) (d : Directive) : Outcome → Option Notice
  | .applied => none
  | .skipped => some (.skipped d.oldName function)
  | .rejected _ reason => some (.rejected d.oldName d.newName reason)

def apply {σ ε ρ : Type} (h : Host σ ε ρ) (tell : Notice → Task σ ε Unit) :
    List Directive → Task σ ε Record
  | [] => return []
  | d :: ds => do
    let outcome ← step h d
    if let some n := notice? (h.functionName (← get)) d outcome then tell n
    let rest ← apply h tell ds
    return (d, outcome) :: rest

namespace Record

def applied (r : Record) : List Directive := (r.filter (·.2 = .applied)).map (·.1)

def skipped (r : Record) : List Directive := (r.filter (·.2 = .skipped)).map (·.1)

def diagnostics (r : Record) : List (Directive × SymbolKind × Text) :=
  r.filterMap fun e =>
    match e.2 with
    | .rejected kind reason => some (e.1, kind, reason)
    | _ => none

def success (r : Record) : Bool := (diagnostics r).isEmpty

end Record

def memoryHost {σ ε : Type} (view : σ → Function) (update : Function → σ → σ) :
    Host σ ε Handle where
  functionName s := (view s).name
  locals := return (view (← get)).handlesOf .localVariable
  parameters := return (view (← get)).handlesOf .parameter
  nameOf s h := (((view s).symbol? h).map (·.name)).getD []
  sourceOf s h := (((view s).symbol? h).map (·.source)).getD []
  setName h name source := do
    match (view (← get)).setName h name source with
    | .ok f =>
      modify (update f)
      return none
    | .error refusal => return some refusal.message

end Batch
end SymbolRename
