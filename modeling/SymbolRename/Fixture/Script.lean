import SymbolRename.World

/-!
# Scripted hosts

A host whose symbols answer a request for a new name as they are told beforehand, and which writes
down in order what it is asked for.
-/

set_option autoImplicit false

namespace SymbolRename.Fixture

inductive Answer (ε : Type) where
  | accept
  /-- Accepts without taking the name. -/
  | ignore
  | refuse (reason : Text)
  | fail (e : ε)

structure ScriptedSymbol (ε : Type) where
  name : Text
  source : Text
  answer : Answer ε

inductive Call where
  | locals
  | parameters
  | setName (current new source : Text)

structure Script (ε : Type) where
  functionName : Text
  locals : List (ScriptedSymbol ε)
  parameters : List (ScriptedSymbol ε)
  calls : List Call
  world : World

namespace Script
variable {ε : Type}

def symbols (s : Script ε) : SymbolKind → List (ScriptedSymbol ε)
  | .localVariable => s.locals
  | .parameter => s.parameters

def symbol? (s : Script ε) (h : Handle) : Option (ScriptedSymbol ε) := (s.symbols h.kind)[h.index]?

def update (s : Script ε) (h : Handle) (x : ScriptedSymbol ε) : Script ε :=
  match h.kind with
  | .localVariable => { s with locals := s.locals.set h.index x }
  | .parameter => { s with parameters := s.parameters.set h.index x }

def called (c : Call) : Task (Script ε) (Fault ⊕ ε) Unit :=
  modify fun s => { s with calls := s.calls ++ [c] }

def handles (kind : SymbolKind) : Task (Script ε) (Fault ⊕ ε) (List Handle) := do
  return (List.range ((← get).symbols kind).length).map (⟨kind, ·⟩)

def setName (h : Handle) (name source : Text) : Task (Script ε) (Fault ⊕ ε) (Option Text) := do
  let s ← get
  match s.symbol? h with
  | none => return none
  | some x =>
    called (.setName x.name name source)
    match x.answer with
    | .accept =>
      modify fun s => s.update h { x with name := name, source := source }
      return none
    | .ignore => return none
    | .refuse reason => return some reason
    | .fail e => throw (.inr e)

def host : Host (Script ε) (Fault ⊕ ε) Handle where
  functionName s := s.functionName
  locals := do
    called .locals
    handles .localVariable
  parameters := do
    called .parameters
    handles .parameter
  nameOf s h := ((s.symbol? h).map (·.name)).getD []
  sourceOf s h := ((s.symbol? h).map (·.source)).getD []
  setName := setName

def tell (n : Notice) : Task (Script ε) (Fault ⊕ ε) Unit :=
  Task.onPart Script.world (fun w s => { s with world := w }) .inl (World.tell n)

end Script
end SymbolRename.Fixture
