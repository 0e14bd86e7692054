import SymbolRename.Log
import SymbolRename.Project
import SymbolRename.Text.Utf8
import SymbolRename.Toml.Reader
import SymbolRename.Value.Shown

/-!
# Configuration

The settings of a project, from a table of its configuration file. Each setting has a default, which
stands when the table does not give a value of the right kind; every value that is passed over is
noted down, and so are the keys that mean nothing.
-/

set_option autoImplicit false

namespace SymbolRename

structure Config where
  reportWidth : Int
  defaultSource : Text
  writeBack : Bool
deriving DecidableEq

namespace Config

def standard : Config := ⟨50, "DEFAULT", true⟩

inductive Fault where
  | undecodable (f : Text.Utf8.Fault)
  /-- A number has more digits than can be read. -/
  | tooLong
  /-- Collections are nested too deep. -/
  | tooDeep
  /-- What should hold the settings of all tools is no table. -/
  | toolsNotTable
  | file (f : Files.Fault)

def warning (text : Text) : Log := ⟨.warning, .configuration, text⟩

def setting {α : Type} (place : Text) (table : List (Value × Value)) (key expected : Text)
    (take : Value → Option α) : Option α × List Log :=
  match Value.field? key table with
  | none => (none, [])
  | some v =>
    match take v with
    | some a => (some a, [])
    | none => (none, [warning ("Ignoring tool.namesmith." ++ key ++ " in " ++ place ++
        ": expected " ++ expected ++ ", got " ++ v.kind)])

def asInteger : Value → Option Int
  | .int i => some i
  | _ => none

def asText : Value → Option Text
  | .text s => some s
  | _ => none

def asTruth : Value → Option Bool
  | .bool b => some b
  | _ => none

/-- A width that is not positive is passed over. -/
def positive (place : Text) : Option Int → Option Int × List Log
  | none => (none, [])
  | some w =>
    if 0 < w then (some w, [])
    else (none, [warning ("Ignoring non-positive tool.namesmith.report_width in " ++ place)])

def knownKeys : List Text := ["report_width", "default_source", "write_back"]

def insertSorted (s : Text) : List Text → List Text
  | [] => [s]
  | t :: ts => if Text.comesBefore s t then s :: t :: ts else t :: insertSorted s ts

def unknownKeys (table : List (Value × Value)) : List Text :=
  ((table.map (·.1.shown)).filter (!knownKeys.contains ·)).foldr insertSorted []

def unknownWarning (place : Text) (keys : List Text) : List Log :=
  if keys.isEmpty then []
  else [warning ("Unknown keys in tool.namesmith of " ++ place ++ ": " ++
    (Value.list (keys.map .text)).literal)]

def ofTable (place : Text) (table : List (Value × Value)) : Config × List Log :=
  let (width, widthLogs) := setting place table "report_width" "int" asInteger
  let (source, sourceLogs) := setting place table "default_source" "str" asText
  let (write, writeLogs) := setting place table "write_back" "bool" asTruth
  let (width, positiveLogs) := positive place width
  (⟨width.getD standard.reportWidth, source.getD standard.defaultSource,
      write.getD standard.writeBack⟩,
    widthLogs ++ sourceLogs ++ writeLogs ++ positiveLogs ++
      unknownWarning place (unknownKeys table))

def ofDocument (place : Text) (document : List (Value × Value)) :
    Except Fault (Config × List Log) :=
  match (Value.field? "tool" document).getD (.dict []) with
  | .dict tools =>
    match (Value.field? "namesmith" tools).getD (.dict []) with
    | .dict table => .ok (ofTable place table)
    | _ => .ok (standard,
        [warning ("tool.namesmith in " ++ place ++ " is not a table; using defaults")])
  | _ => .error .toolsNotTable

def ofBytes (place : Text) (bytes : List UInt8) : Except Fault (Config × List Log) :=
  match Text.Utf8.decode bytes with
  | .error f => .error (.undecodable f)
  | .ok s =>
    match Toml.read s with
    | .ok document => ofDocument place document
    | .error .malformed => .ok (standard, [warning ("Could not read " ++ place ++ ": no TOML")])
    | .error .tooLong => .error .tooLong
    | .error .tooDeep => .error .tooDeep

/-- The settings that count for a directory: those of the nearest configuration file. -/
def load (t : Files.Tree) (start : Files.Place) : Except Fault (Config × List Log) :=
  match Project.configured? t start with
  | .error f => .error (.file f)
  | .ok none => .ok (standard, [])
  | .ok (some directory) =>
    let place := directory ++ [Project.configurationName]
    match t.node? place with
    | some (.file bytes) => ofBytes (Files.Path.ofPlace place).text bytes
    | _ => .ok (standard, [])

end Config
end SymbolRename
