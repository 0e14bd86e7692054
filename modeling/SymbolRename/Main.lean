import SymbolRename.Command.Ended

/-!
# The program

Runs a command on the files of the machine. What the command may look at is read into a tree first:
the paths on the command line, the configuration files and repositories at and above the
current directory, and the file `overrides.json` of the messages of the project. Files that the
command has changed are written back at the end.
-/

set_option autoImplicit false

namespace SymbolRename.Program
open Files

/-- The path of a place; a place of the machine is named by characters. -/
def machinePath (place : Place) : String :=
  String.ofList ((Path.ofPlace place).text.chars?.getD [])

def isDirectory (place : Place) : IO Bool := do
  try
    let _ ← IO.FS.realPath (machinePath place ++ "/.")
    return true
  catch _ => return false

def nodeAt (place : Place) : IO (Option Node) := do
  if ← isDirectory place then return some .directory
  try
    return some (.file (← IO.FS.readBinFile (machinePath place)).toList)
  catch _ => return none

def lookAt (t : Tree) (place : Place) : IO Tree := do
  match ← nodeAt place with
  | some n => return t.put place n
  | none => return t

/-- The places that a path passes by, seen from a directory. -/
def placesOf (here : Place) (p : Path) : List Place :=
  (List.range (p.parts.length + 1)).map fun n => Path.resolve here ⟨p.rooted, p.parts.take n⟩

/-- The paths that an argument may hold: all of it, or what follows a letter or an equals sign. -/
def pathsIn (arg : Text) : List Path :=
  [arg, arg.drop 2, (arg.dropWhile (· ≠ .char '=')).drop 1].map .ofText

def markPlaces (here : Place) : List Place :=
  (Project.ancestorsFrom here.length here).flatMap fun above =>
    [above, above ++ [Project.configurationName], above ++ [Project.repositoryName]]

def messageFile : Text := "overrides.json"

def messagePlaces (root : Place) (languages : List Text) : List Place :=
  languages.flatMap fun lang =>
    (Message.Root.layers (.ofPlace root) lang).flatMap fun top =>
      placesOf [] (top.child messageFile)

def treeFor (here : Place) (languages args : List Text) : IO Tree := do
  let paths := (args.flatMap pathsIn).flatMap (placesOf here)
  let t ← (paths ++ markPlaces here).foldlM lookAt ⟨[]⟩
  match Project.root t here with
  | .ok root => (messagePlaces root languages).foldlM lookAt t
  | .error _ => return t

def writeBack (before after : Tree) : IO Unit :=
  after.nodes.forM fun (place, n) =>
    match n with
    | .file bytes =>
      if before.node? place = some n then return ()
      else IO.FS.writeBinFile (machinePath place) ⟨bytes.toArray⟩
    | .directory => return ()

partial def readAll (input : IO.FS.Stream) (read : ByteArray) : IO ByteArray := do
  let more ← input.read 65536
  if more.isEmpty then return read else readAll input (read ++ more)

def here : IO Place := do
  return Path.resolve [] (.ofText ((← IO.getEnv "PWD").getD "/"))

def settle (before : Tree) (e : Ended) : IO UInt32 := do
  (← IO.getStdout).putStr (String.ofList e.output)
  (← IO.getStderr).putStr (String.ofList e.errors)
  writeBack before e.files
  return e.code.toUInt32

end SymbolRename.Program

open SymbolRename in
def main (args : List String) : IO UInt32 := do
  let place ← Program.here
  let language := (← IO.getEnv "NAMESMITH_LANG").map Text.ofString
  let languages := [language.getD Message.Catalog.defaultLanguage, Message.Catalog.defaultLanguage]
  let args := args.map Text.ofString
  let t ← Program.treeFor place languages args
  -- Only a command that is run waits for its input.
  let input ←
    if (Invocation.ofArguments t place args).isOk then
      Program.readAll (← IO.getStdin) .empty
    else pure .empty
  Program.settle t (Program.run t place language args input.toList)
