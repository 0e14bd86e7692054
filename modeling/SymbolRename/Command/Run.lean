import SymbolRename.CodeBlock
import SymbolRename.Command.Arguments
import SymbolRename.Document.File
import SymbolRename.Pass

/-!
# Running commands

The four commands, each with its exit code: zero if all went well, one if something could not be
read or was refused.
-/

set_option autoImplicit false

namespace SymbolRename.Command
open Files World

/-- The surroundings of a command: the messages of the project that the current directory belongs
to, and a reader. -/
def surroundings (files : Tree) (here : Place) (language : Option Text) :
    Except Files.Fault World := do
  return {
    files := files
    here := here
    language := language
    catalog := .ofRoots [.packaged, .project (.ofPlace (← Project.root files here))]
    templates := none
    audience := .terminal
    journal := [] }

/-- The bytes of a response: standard input for a hyphen, else a file. -/
def responseBytes (input : List UInt8) (source : Text) : Act (List UInt8) := do
  if source = "-" then return input
  let w ← get
  let p := Path.ofText source
  if !(← orFault .file (w.files.isFile w.here p)) then throw (.noResponse p)
  orFault .file (w.files.read w.here p)

def readResponse (input : List UInt8) (source : Text) : Act Text := do
  let bytes ← responseBytes input source
  return Text.ofChars (Text.unifyBreaks (← orFault .undecodable (Text.Utf8.decode bytes)))

def tooLongText (p : Path) : Text :=
  "[Errno 36] File name too long: " ++ Text.ofChars (Text.literal p.text)

/-- The notice about something that could not be read; other faults are none of these. -/
def loadNotice? (document : Path) (f : Fault) : Option Notice :=
  match f with
  | .document _ _ => f.message?.map (.badDocument document)
  | .noResponse _ | .noDocument _ | .undecodable _ => f.message?.map .failure
  | .file (.tooLong p) => some (.failure (tooLongText p))
  | _ => none

/-- The outcome of reading something, or nothing after a notice that it could not be read. -/
def loaded? {α : Type} (document : Path) (act : Act α) : Act (Option α) := do
  let (r, w) := act.run (← get)
  set w
  match r with
  | .ok a => return some a
  | .error f =>
    match loadNotice? document f with
    | some n =>
      tell n
      return none
    | none => throw f

def loadConfig : Act Config := do
  let w ← get
  noted (← orFault .config (Config.load w.files w.here))

def atDesk {α : Type} (f : Function) (task : Task Desk Fault α) : Act (α × Function) := do
  let (r, d) := task.run ⟨← get, f⟩
  set d.world
  match r with
  | .ok a => return (a, d.function)
  | .error e => throw e

def keep (p : Path) (f : Function) (mayWrite : Bool) : Act Unit := do
  if !mayWrite then tell (.dryRun p)
  else if ← Document.save p f then tell (.saved p)
  else tell (.unchanged p)

def exitCode (success : Bool) : Nat := if success then 0 else 1

def runApply (input : List UInt8) (response : Text) (document : Path)
    (dryRun noReport : Bool) : Act Nat := do
  let config ← loadConfig
  let loaded ← loaded? document do
    let text ← readResponse input response
    return (text, ← Document.load document config.defaultSource)
  match loaded with
  | none => return 1
  | some (text, function) =>
    let (pass, function) ←
      atDesk function (Pass.run Desk.host Desk.tell .report text config.reportWidth)
    if !noReport then print pass.report
    if !pass.record.applied.isEmpty then
      keep document function (!dryRun && config.writeBack)
    return exitCode pass.record.success

def response? (input : List UInt8) (source : Text) : Act (Option Text) :=
  loaded? (.ofText source) (readResponse input source)

def directiveNotice (d : Directive) : Notice :=
  if d.reason.isEmpty then .directive d.oldName d.newName
  else .directiveWithReason d.oldName d.newName d.reason

def parseNotices (ds : List Directive) : List Notice :=
  if ds.isEmpty then [.nothingParsed] else ds.map directiveNotice ++ [.parseSummary ds.length]

def runParse (input : List UInt8) (source : Text) : Act Nat := do
  match ← response? input source with
  | none => return 1
  | some text =>
    (parseNotices (Directive.parse text)).forM tell
    return 0

/-- Code as it is printed: with a line feed at its end. -/
def printed (code : Text) : Text :=
  if code.getLast? = some (.char '\n') then code else code ++ "\n"

def runExtract (input : List UInt8) (source : Text) : Act Nat := do
  match ← response? input source with
  | none => return 1
  | some text =>
    let code := CodeBlock.extract text
    if code.isEmpty then
      tell .noCode
      return 1
    print (printed code)
    return 0

def nameNotice (name : Text) : Notice :=
  if Identifier.isValid name then .validName name else .invalidName name

def runCheck (names : List Text) : Act Nat := do
  (names.map nameNotice).forM tell
  return exitCode (names.all Identifier.isValid)

def run (input : List UInt8) : Command → Act Nat
  | .apply response document dryRun noReport => runApply input response document dryRun noReport
  | .parse response => runParse input response
  | .extract response => runExtract input response
  | .check names => runCheck names

end SymbolRename.Command
