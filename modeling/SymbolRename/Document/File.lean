import SymbolRename.Text.Lines
import SymbolRename.World
import SymbolRename.Yaml.Object
import SymbolRename.Yaml.Writer

/-!
# Document files

A function is kept in a YAML file. A file that is missing, cannot be read as YAML or holds no
mapping counts as an empty document, and keys without a value do not count. A file is written only
if its text would change.
-/

set_option autoImplicit false

namespace SymbolRename.Document
open Files World
open Yaml (Objects)

/-- What a document file holds: the objects of its values under their keys as texts. -/
structure Contents where
  objects : Objects
  entries : List (Text × Nat)

namespace Contents

def empty : Contents := ⟨⟨#[], 0⟩, []⟩

def isNull : Yaml.Object → Bool
  | .scalar .null => true
  | _ => false

def kept? (c : Objects) (e : Nat × Nat) : Except Document.Fault (Option (Text × Nat)) :=
  if isNull (c.object e.2) then .ok none
  else match c.shown? e.1 with
    | some key => .ok (some (key, e.2))
    | none => .error .tooLong

def ofObjects (c : Objects) : Except Document.Fault Contents :=
  match c.object c.root with
  | .dict es => do return ⟨c, Entries.ofList ((← es.mapM (kept? c)).filterMap id)⟩
  | _ => .ok empty

def get? (c : Contents) (key : Text) : Option Nat := Entries.get? key c.entries

def fieldOf? (c : Objects) (key : Text) (es : List (Nat × Nat)) : Option Nat :=
  (es.find? fun e =>
    match c.object e.1 with
    | .scalar v => v == .text key
    | _ => false).map (·.2)

def field (c : Objects) (n : Nat) : Field := ⟨c.isTruthy n, c.shown? n⟩

def entryOf (c : Objects) (n : Nat) : Entry :=
  match c.object n with
  | .scalar (.text s) => .text s
  | .dict es =>
    .fields ((fieldOf? c "name" es).map (field c)) ((fieldOf? c "source" es).map (field c))
  | _ => .other

def sectionOf (c : Contents) (kind : SymbolKind) : Section :=
  match c.get? (sectionName kind) with
  | none => .absent
  | some n =>
    match c.objects.object n with
    | .list items => .entries (items.map (entryOf c.objects))
    | .pairs es => .entries (es.map fun _ => .other)
    | _ => .notList

def name? (c : Contents) : Option Text :=
  match (c.get? "name").map c.objects.object with
  | some (.scalar (.text s)) => some s
  | _ => none

def outline (c : Contents) : Outline :=
  ⟨c.name?, c.sectionOf .parameter, c.sectionOf .localVariable⟩

/-- The contents as a dictionary, unless something in them stands in itself. -/
def values? (c : Contents) : Option (List (Value × Value)) :=
  c.entries.mapM fun (k, n) => (c.objects.value? n).map fun v => (.text k, v)

end Contents

def unreadableWarning (p : Path) : Log :=
  ⟨.warning, .yaml, "Could not parse YAML document " ++ p.text ++ ": no YAML"⟩

def loadContents (p : Path) : Act Contents := do
  let w ← get
  if !(← orFault .file (w.files.present w.here p)) then return .empty
  let bytes ← orFault .file (w.files.read w.here p)
  match Objects.read (.ofBytes bytes) with
  | .ok (some c) => orFault (.document none) (Contents.ofObjects c)
  | .ok none => return .empty
  | .error .unreadable =>
    say [.log (unreadableWarning p)]
    return .empty
  | .error (.undecodable f) => throw (.undecodable f)
  | .error f => throw (.content f)

def load (p : Path) (defaultSource : Text) : Act Function := do
  let w ← get
  if !(← orFault .file (w.files.isFile w.here p)) then throw (.noDocument p)
  let contents ← loadContents p
  let f ← orFault (.document (some p)) (contents.outline.toFunction defaultSource)
  say [.log ⟨.debug, .document, "Loaded " ++ f.literal ++ " from " ++ p.text⟩]
  return f

/-- The text of a document, in which characters beyond ASCII stand for themselves. -/
def text (entries : List (Value × Value)) : List Char := Yaml.Writer.document true (.dict entries)

def currentText? (t : Tree) (here : Place) (p : Path) : Option (List Char) :=
  match t.read here p with
  | .ok bytes =>
    match Text.Utf8.decode bytes with
    | .ok s => some (Text.unifyBreaks s)
    | .error _ => none
  | .error _ => none

def writeIfNew (t : Tree) (here : Place) (p : Path) (text : List Char) :
    Except Files.Fault (Bool × Tree) := do
  if (← t.present here p) && currentText? t here p = some text then return (false, t)
  return (true, ← t.writeDeep here p (Text.Utf8.encode text))

/-- Saves entries as a document; tells whether the file was written. -/
def store (p : Path) (entries : List (Value × Value)) : Act Bool := do
  match Yaml.Writer.write? true (.dict entries) with
  | none => throw .tooDeep
  | some s =>
    let w ← get
    let (written, files) ← orFault .file (writeIfNew w.files w.here p s)
    set { w with files := files }
    return written

def save (p : Path) (f : Function) : Act Bool := store p (ofFunction f)

end SymbolRename.Document
