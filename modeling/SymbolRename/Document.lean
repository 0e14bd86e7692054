import SymbolRename.Function
import SymbolRename.Value.Shown

/-!
# Function documents

A function as a document: its name, and its parameters and local variables as lists of entries. An
entry is a name, or a dictionary with a name and perhaps a source. What is not a text is taken by
its text. What is written gives a source to every entry.
-/

set_option autoImplicit false

namespace SymbolRename.Document

inductive Fault where
  | noName
  | notList (kind : SymbolKind)
  | namelessEntry (index : Nat) (kind : SymbolKind)
  | refused (r : Refusal)
  /-- The text of a name or source is too long to be written. -/
  | tooLong
deriving DecidableEq

def sectionName : SymbolKind → Text
  | .localVariable => "locals"
  | .parameter => "parameters"

def quoted (s : Text) : Text := "\x27" ++ s ++ "\x27"

def Fault.message? : Fault → Option Text
  | .noName => some "missing function \x27name\x27"
  | .notList kind => some (quoted (sectionName kind) ++ " must be a list")
  | .namelessEntry index kind => some
    ("entry " ++ Text.ofChars (Text.decimal index) ++ " of " ++ quoted (sectionName kind) ++
      " has no name")
  | .refused r => some r.message
  | .tooLong => none

structure Field where
  /-- Whether it counts as something. -/
  counts : Bool
  /-- Its text, unless that is too long to be written. -/
  text? : Option Text

inductive Entry where
  | text (s : Text)
  /-- A dictionary, of which the name and the source are looked at. -/
  | fields (name source : Option Field)
  | other

inductive Section where
  | absent
  | notList
  | entries (es : List Entry)

/-- What a document holds, as far as it is looked at. -/
structure Outline where
  /-- What stands under the name, if it is a text. -/
  name? : Option Text
  parameters : Section
  locals : Section

def Outline.collection (o : Outline) : SymbolKind → Section
  | .parameter => o.parameters
  | .localVariable => o.locals

def Field.ofValue (v : Value) : Field := ⟨v.isTruthy, some v.shown⟩

def Entry.ofValue : Value → Entry
  | .text s => .text s
  | .dict es =>
    .fields ((Value.field? "name" es).map .ofValue) ((Value.field? "source" es).map .ofValue)
  | _ => .other

def Section.ofValue? : Option Value → Section
  | none => .absent
  | some (.list items) => .entries (items.map .ofValue)
  | some _ => .notList

def nameOf? : Option Value → Option Text
  | some (.text s) => some s
  | _ => none

def Outline.ofEntries (es : List (Value × Value)) : Outline :=
  ⟨nameOf? (Value.field? "name" es), .ofValue? (Value.field? (sectionName .parameter) es),
    .ofValue? (Value.field? (sectionName .localVariable) es)⟩

/-- The text of a field that counts; without one the default stands. -/
def Field.textOr (default : Text) : Option Field → Except Fault Text
  | some f =>
    if !f.counts then .ok default
    else match f.text? with
      | some s => .ok s
      | none => .error .tooLong
  | none => .ok default

/-- The name and source that an entry gives, or nothing if it has no name. -/
def Entry.symbol? (defaultSource : Text) : Entry → Except Fault (Option Symbol)
  | .text s => .ok (if s.isEmpty then none else some ⟨s, defaultSource⟩)
  | .fields name source => do
    if !name.any Field.counts then return none
    let source ← Field.textOr defaultSource source
    return some ⟨← Field.textOr [] name, source⟩
  | .other => .ok none

def addEntry (defaultSource : Text) (kind : SymbolKind) (f : Function) (entry : Entry × Nat) :
    Except Fault Function := do
  match ← entry.1.symbol? defaultSource with
  | none => throw (.namelessEntry entry.2 kind)
  | some s =>
    match f.add kind s.name s.source with
    | .ok f => return f
    | .error r => throw (.refused r)

def addSection (o : Outline) (defaultSource : Text) (f : Function) (kind : SymbolKind) :
    Except Fault Function :=
  match o.collection kind with
  | .absent => .ok f
  | .entries es => es.zipIdx.foldlM (addEntry defaultSource kind) f
  | .notList => .error (.notList kind)

def Outline.toFunction (o : Outline) (defaultSource : Text) : Except Fault Function :=
  match o.name? with
  | some name =>
    if name.isEmpty then .error .noName
    else [SymbolKind.parameter, .localVariable].foldlM (addSection o defaultSource) (.empty name)
  | none => .error .noName

def toFunction (es : List (Value × Value)) (defaultSource : Text) : Except Fault Function :=
  (Outline.ofEntries es).toFunction defaultSource

def ofSymbol (s : Symbol) : Value :=
  .dict [(.text "name", .text s.name), (.text "source", .text s.source)]

def ofFunction (f : Function) : List (Value × Value) :=
  [(.text "name", .text f.name), (.text "parameters", .list (f.parameters.map ofSymbol)),
    (.text "locals", .list (f.locals.map ofSymbol))]

end SymbolRename.Document
