import SymbolRename.Json.Reader
import SymbolRename.Log
import SymbolRename.Message.Packaged
import SymbolRename.Task
import SymbolRename.Text.Lines
import SymbolRename.Value.Shown

/-!
# The message catalog

Templates by key and language. They come from JSON files below a row of roots: later roots count
more, in each root the overrides of a project count more than what is packaged there, and in a
directory later files count more. A language is read when it is first asked for and kept until the
roots change or the catalog is reset. A key that a language does not have is looked up in the
default language, and stands for itself if that does not have it either.
-/

set_option autoImplicit false

namespace SymbolRename.Message
open Files

abbrev Table := List (Text × Text)

inductive Fault where
  | file (f : Files.Fault)
  /-- A message file is nested too deep. -/
  | tooDeep

abbrev Reading := Task (List Log) Fault

def dotted (lead : Text) (key : Value) : Text :=
  if lead.isEmpty then key.shown else lead ++ "." ++ key.shown

mutual

/-- Adds nested entries to a table, each under the row of its keys with dots between them. -/
def flattenInto (table : Table) (lead : Text) : List (Value × Value) → Table
  | [] => table
  | (k, v) :: es => flattenInto (addFlat table (dotted lead k) v) lead es

def addFlat (table : Table) (key : Text) : Value → Table
  | .dict es => Entries.putAll table (flattenInto [] key es)
  | v => Entries.put key v.shown table

end

def flatten (lead : Text) (es : List (Value × Value)) : Table := flattenInto [] lead es

def readTable (bytes : List UInt8) : Except Fault (Option Table) :=
  match Text.Utf8.decode bytes with
  | .error _ => .ok none
  | .ok s =>
    match Json.read (Text.unifyBreaks s) with
    | .ok (.dict es) => .ok (some (flatten [] es))
    | .error .tooDeep => .error .tooDeep
    | _ => .ok none

def lowerCode : Code → Code
  | .char c => .char c.toLower
  | .half n => .half n

/-- Message files are known by their suffix, in any case. -/
def isMessageFile (p : Path) : Bool := p.suffix.map lowerCode = ".json"

def unreadableWarning (p : Path) : Log :=
  ⟨.warning, .messages, "Skipping unreadable message file " ++ p.text ++ ": no JSON object"⟩

def addFile (top : Path) (table : Table) (file : Place × List UInt8) : Reading Table := do
  let path := top.join ⟨false, file.1⟩
  if isMessageFile path then
    match ← Task.orFault id (readTable file.2) with
    | some t => return Entries.putAll table t
    | none =>
      modify (· ++ [unreadableWarning path])
      return table
  else return table

/-- All message files below a directory; a path that is no directory has none. -/
def loadDirectory (t : Tree) (here : Place) (top : Path) : Reading Table := do
  (← Task.orFault .file (t.filesUnder here top)).foldlM (addFile top) []

inductive Root where
  /-- The messages that come with the program. -/
  | packaged
  | project (p : Path)
deriving DecidableEq

def Root.seen (t : Tree) (here : Place) : Root → Tree × Place × Path
  | packaged => (Packaged.tree, [], ⟨true, []⟩)
  | project p => (t, here, p)

/-- The directories of a language in a root, the stronger one last. -/
def Root.layers (top : Path) (lang : Text) : List Path :=
  [(top.child "needle").child lang, ((top.child ".namesmith").child "needle").child lang]

def addLayer (t : Tree) (here : Place) (table : Table) (top : Path) : Reading Table := do
  return Entries.putAll table (← loadDirectory t here top)

def addRoot (t : Tree) (here : Place) (lang : Text) (table : Table) (root : Root) :
    Reading Table :=
  let (t, here, top) := root.seen t here
  (Root.layers top lang).foldlM (addLayer t here) table

def loadLanguage (t : Tree) (here : Place) (roots : List Root) (lang : Text) : Reading Table :=
  roots.foldlM (addRoot t here lang) []

/-- The roots, weakest first, and the languages that were read. -/
structure Catalog where
  roots : List Root
  loaded : List (Text × Table)

namespace Catalog

def defaultLanguage : Text := "en"

def ofRoots (roots : List Root) : Catalog := ⟨roots, []⟩

def reset (c : Catalog) : Catalog := { c with loaded := [] }

/-- A new root in front of the others, as the weakest one. -/
def addRoot (c : Catalog) (r : Root) : Catalog :=
  if c.roots.contains r then c else ⟨r :: c.roots, []⟩

/-- Another root in the place of the strongest one. -/
def setLastRoot (c : Catalog) (r : Root) : Catalog :=
  if c.roots.getLast? = some r then c else ⟨c.roots.dropLast ++ [r], []⟩

structure Desk where
  catalog : Catalog
  logs : List Log

abbrev Lookup := Task Desk Fault

/-- The table of a language, read now if it was not read before. -/
def table (t : Tree) (here : Place) (lang : Text) : Lookup Table := do
  let c := (← get).catalog
  match Entries.get? lang c.loaded with
  | some table => return table
  | none =>
    let table ← Task.onPart Desk.logs (fun logs d => { d with logs := logs }) id
      (loadLanguage t here c.roots lang)
    modify fun d =>
      { d with catalog := { d.catalog with loaded := Entries.put lang table c.loaded } }
    return table

/-- The language to look in: the one asked for, else that of the surroundings, else the default. -/
def chosen (asked surroundings : Option Text) : Text :=
  match asked with
  | some lang => if lang.isEmpty then surroundings.getD defaultLanguage else lang
  | none => surroundings.getD defaultLanguage

def get (t : Tree) (here : Place) (lang key : Text) : Lookup Text := do
  match Entries.get? key (← table t here lang) with
  | some s => return s
  | none =>
    if lang = defaultLanguage then return key
    else return (Entries.get? key (← table t here defaultLanguage)).getD key

end Catalog
end SymbolRename.Message
