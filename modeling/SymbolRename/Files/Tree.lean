import SymbolRename.Files.Path

/-!
# File trees

A tree of files as the list of what stands at each place, a place being the row of names from the
root. Looking a path up walks it name by name, so every name before the last must be that of a
directory.
-/

set_option autoImplicit false

namespace SymbolRename.Files

abbrev Place := List Text

inductive Node where
  | file (bytes : List UInt8)
  | directory
deriving DecidableEq

structure Tree where
  nodes : List (Place × Node)

inductive Fault where
  | missing
  | exists
  | isDirectory
  /-- A file stands where a directory is needed. -/
  | notDirectory
  /-- The path, or a name in it, has more bytes than a file system takes. -/
  | tooLong (p : Path)
  /-- The path holds what no path can hold. -/
  | impossible (p : Path)
deriving DecidableEq

inductive Found where
  | file (place : Place) (bytes : List UInt8)
  | directory (place : Place)

namespace Tree

def node? (t : Tree) (place : Place) : Option Node :=
  if place = [] then some .directory else (t.nodes.find? (·.1 = place)).map (·.2)

def walk (t : Tree) (p : Path) : Place → List Text → Except Fault Found
  | here, [] => .ok (.directory here)
  | here, n :: ns =>
    if n = ".." then walk t p here.dropLast ns
    else if Path.nameLimit < Path.byteCount n then .error (.tooLong p)
    else match t.node? (here ++ [n]) with
      | none => .error .missing
      | some .directory => walk t p (here ++ [n]) ns
      | some (.file bytes) =>
        if ns.isEmpty then .ok (.file (here ++ [n]) bytes) else .error .notDirectory

def find (t : Tree) (here : Place) (p : Path) : Except Fault Found :=
  if p.isImpossible then .error (.impossible p)
  else if Path.lengthLimit < Path.byteCount p.text then .error (.tooLong p)
  else t.walk p (if p.rooted then [] else here) p.parts

def probe (t : Tree) (here : Place) (p : Path) : Except Fault (Option Found) :=
  match t.find here p with
  | .ok found => .ok (some found)
  | .error (.tooLong p) => .error (.tooLong p)
  | .error _ => .ok none

def isFile (t : Tree) (here : Place) (p : Path) : Except Fault Bool := do
  match ← t.probe here p with
  | some (.file _ _) => return true
  | _ => return false

def isDirectory (t : Tree) (here : Place) (p : Path) : Except Fault Bool := do
  match ← t.probe here p with
  | some (.directory _) => return true
  | _ => return false

def present (t : Tree) (here : Place) (p : Path) : Except Fault Bool := do
  return (← t.probe here p).isSome

def read (t : Tree) (here : Place) (p : Path) : Except Fault (List UInt8) := do
  match ← t.find here p with
  | .file _ bytes => return bytes
  | .directory _ => throw .isDirectory

def set (place : Place) (n : Node) : List (Place × Node) → List (Place × Node)
  | [] => [(place, n)]
  | (q, m) :: ns => if q = place then (q, n) :: ns else (q, m) :: set place n ns

def put (t : Tree) (place : Place) (n : Node) : Tree := ⟨set place n t.nodes⟩

/-- The place that a path names: its directory must be there, what it names need not be. -/
def place (t : Tree) (here : Place) (p : Path) : Except Fault Place :=
  match p.parts.getLast? with
  | none => .ok (if p.rooted then [] else here)
  | some last =>
    if p.isImpossible then .error (.impossible p)
    else match t.find here p.parent with
      | .ok (.directory above) =>
        if last = ".." then .ok above.dropLast
        else if Path.nameLimit < Path.byteCount last then .error (.tooLong p)
        else .ok (above ++ [last])
      | .ok (.file _ _) => .error .notDirectory
      | .error f => .error f

def write (t : Tree) (here : Place) (p : Path) (bytes : List UInt8) : Except Fault Tree := do
  let place ← t.place here p
  match t.node? place with
  | some .directory => .error .isDirectory
  | _ => return t.put place (.file bytes)

def makeDirectory (t : Tree) (here : Place) (p : Path) : Except Fault Tree := do
  let place ← t.place here p
  match t.node? place with
  | some _ => .error .exists
  | none => return t.put place .directory

/-- A directory that is there already counts as made. -/
def orPresent (t : Tree) (here : Place) (p : Path) : Except Fault Tree → Except Fault Tree
  | .ok made => .ok made
  | .error (.impossible p) => .error (.impossible p)
  | .error f => do if ← t.isDirectory here p then return t else throw f

/-- Makes a directory and those above it that are missing; one that is there is left as it is. The
parts are counted down by the first argument. -/
def makeDirectories (t : Tree) (here : Place) : Nat → Path → Except Fault Tree
  | 0, _ => .ok t
  | n + 1, p =>
    match t.makeDirectory here p with
    | .error .missing => do
      let above ← t.makeDirectories here n p.parent
      above.orPresent here p (above.makeDirectory here p)
    | r => t.orPresent here p r

def writeDeep (t : Tree) (here : Place) (p : Path) (bytes : List UInt8) : Except Fault Tree := do
  let t ← t.makeDirectories here (p.parts.length + 1) p.parent
  t.write here p bytes

def remove (t : Tree) (place : Place) : Tree := ⟨t.nodes.filter fun n => !place.isPrefixOf n.1⟩

def placeBefore : Place → Place → Bool
  | [], _ => true
  | _ :: _, [] => false
  | a :: as, b :: bs => if a = b then placeBefore as bs else Text.comesBefore a b

def insertSorted {α : Type} (e : Place × α) : List (Place × α) → List (Place × α)
  | [] => [e]
  | f :: fs => if placeBefore e.1 f.1 then e :: f :: fs else f :: insertSorted e fs

/-- The files below a directory, each with its names from there on, in the order of these names. -/
def filesBelow (t : Tree) (top : Place) : List (Place × List UInt8) :=
  t.nodes.foldr (fun n found =>
    match top.isPrefixOf? n.1, n.2 with
    | some (p :: ps), .file bytes => insertSorted (p :: ps, bytes) found
    | _, _ => found) []

def namesBelow (t : Tree) (top : Place) : List Place :=
  t.nodes.filterMap fun n => (top.isPrefixOf? n.1).filter (!·.isEmpty)

/-- The files below the directory that a path leads to, or none if it leads to no directory. If a
path below it is too long to be looked up, nothing is listed at all; which one is met first is up to
the file system, so the fault names the directory. -/
def filesUnder (t : Tree) (here : Place) (p : Path) :
    Except Fault (List (Place × List UInt8)) := do
  match ← t.probe here p with
  | some (.directory place) =>
    if (t.namesBelow place).all fun names =>
        Path.byteCount (p.join ⟨false, names⟩).text ≤ Path.lengthLimit then
      return t.filesBelow place
    else throw (.tooLong p)
  | _ => return []

end Tree
end SymbolRename.Files
