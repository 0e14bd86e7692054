import SymbolRename.Text.Blank
import SymbolRename.Text.Numeral

/-!
# Functions and their symbols

A function of a program has parameters and local variables, each with a name and the source that
the name came from. Inside one of the two collections names are added only once, and a symbol takes
a new name only if no symbol of the function has it; a local variable that was added under the name
of a parameter keeps it. Symbols are never removed, so a symbol is told by its collection and its
place.
-/

set_option autoImplicit false

namespace SymbolRename

inductive SymbolKind where
  | localVariable
  | parameter
deriving DecidableEq

def SymbolKind.name : SymbolKind → Text
  | .localVariable => "local"
  | .parameter => "parameter"

structure Symbol where
  name : Text
  source : Text
deriving DecidableEq

/-- A symbol of a function by its collection and its place there. -/
structure Handle where
  kind : SymbolKind
  index : Nat
deriving DecidableEq

inductive Refusal where
  /-- The name is empty or has a blank in it. -/
  | invalid (name : Text)
  | taken (name functionName : Text)
deriving DecidableEq

def Refusal.message : Refusal → Text
  | .invalid name => "Invalid name: \x27" ++ name ++ "\x27"
  | .taken name functionName => "\x27" ++ name ++ "\x27 is already defined in " ++ functionName

structure Function where
  name : Text
  parameters : List Symbol
  locals : List Symbol
deriving DecidableEq

namespace Symbol

def defaultSource : Text := "DEFAULT"

def literal (kind : SymbolKind) (s : Symbol) : Text :=
  "<MemorySymbol " ++ kind.name ++ " \x27" ++ s.name ++ "\x27 (" ++ s.source ++ ")>"

end Symbol

/-- A name can be given if it is not empty and has no blank. -/
def isGivable (name : Text) : Bool := !name.isEmpty && !name.any Text.isBlank

/-- A symbol under a new name and source; `isTaken` tells which other names are taken. -/
def Symbol.rename (owner : Text) (isTaken : Text → Bool) (s : Symbol) (name source : Text) :
    Except Refusal Symbol :=
  if !isGivable name then .error (.invalid name)
  else if name = s.name then .ok ⟨name, source⟩
  else if isTaken name then .error (.taken name owner)
  else .ok ⟨name, source⟩

namespace Function

def empty (name : Text) : Function := ⟨name, [], []⟩

def symbols (f : Function) : SymbolKind → List Symbol
  | .localVariable => f.locals
  | .parameter => f.parameters

def withSymbols (f : Function) (kind : SymbolKind) (ss : List Symbol) : Function :=
  match kind with
  | .localVariable => { f with locals := ss }
  | .parameter => { f with parameters := ss }

def hasName (name : Text) (ss : List Symbol) : Bool := ss.any (·.name = name)

def add (f : Function) (kind : SymbolKind) (name source : Text) : Except Refusal Function :=
  if hasName name (f.symbols kind) then .error (.taken name f.name)
  else .ok (f.withSymbols kind (f.symbols kind ++ [⟨name, source⟩]))

def handlesOf (f : Function) (kind : SymbolKind) : List Handle :=
  (List.range (f.symbols kind).length).map (⟨kind, ·⟩)

def symbol? (f : Function) (h : Handle) : Option Symbol := (f.symbols h.kind)[h.index]?

def isTaken (f : Function) (name : Text) : Bool :=
  hasName name f.locals || hasName name f.parameters

def indexIn (name : Text) (ss : List Symbol) : Option Nat := ss.findIdx? (·.name = name)

def find? (f : Function) (name : Text) : Option Handle :=
  match indexIn name f.locals with
  | some i => some ⟨.localVariable, i⟩
  | none => (indexIn name f.parameters).map (⟨.parameter, ·⟩)

/-- Gives a symbol a name and a source; one that is not there is left alone. -/
def setName (f : Function) (h : Handle) (name source : Text) : Except Refusal Function :=
  match f.symbol? h with
  | none => .ok f
  | some s => do
    let s ← s.rename f.name f.isTaken name source
    return f.withSymbols h.kind ((f.symbols h.kind).set h.index s)

def literal (f : Function) : Text :=
  "<MemoryFunction \x27" ++ f.name ++ "\x27 params=" ++
    Text.ofChars (Text.decimal f.parameters.length) ++ " locals=" ++
    Text.ofChars (Text.decimal f.locals.length) ++ ">"

end Function
end SymbolRename
