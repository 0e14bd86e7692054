import SymbolRename.Fixture.Sample
import SymbolRename.Json.Writer
import SymbolRename.Text.Indent
import SymbolRename.Toml.Writer
import SymbolRename.Yaml.Writer

/-!
# Workspaces

Projects for trying things out. Files are planned one after another and written all at once, the
configuration file last; it is planned anew at every build and holds the settings of that time.
-/

set_option autoImplicit false

namespace SymbolRename.Fixture
open Files

inductive Content where
  | raw (text : Text)
  | document (v : Value)
  | settings

structure Workspace where
  planned : List (Value × Content)
  settings : List (Value × Value)

namespace Workspace

def empty : Workspace := ⟨[], []⟩

def plan (w : Workspace) (path : Value) (c : Content) : Workspace :=
  { w with planned := w.planned ++ [(path, c)] }

def withSetting (table key : Text) (v : Value) (w : Workspace) : Workspace :=
  let entries := match Value.field? table w.settings with
    | some (.dict es) => es
    | _ => []
  { w with settings :=
      Entries.put (.text table) (.dict (Entries.put (.text key) v entries)) w.settings }

def withConfig (settings : Value) (w : Workspace) : Workspace :=
  w.withSetting "tool" "namesmith" settings

def withProjectName (name : Value) (w : Workspace) : Workspace :=
  w.withSetting "project" "name" name

/-- A response, of which the common indentation does not count. -/
def withResponse (path content : Value) (w : Workspace) : Except Fault Workspace :=
  match content with
  | .text s => .ok (w.plan path (.raw (Text.dedent s)))
  | _ => .error .noText

def withFunction (path name parameters locals : Value) (w : Workspace) :
    Except Fault Workspace := do
  return w.plan path (.document (.dict [(.text "name", name),
    (.text "parameters", .list (← row parameters)), (.text "locals", .list (← row locals))]))

def withOverride (lang messages : Value) (w : Workspace) : Workspace :=
  w.plan (.text (".namesmith/needle/" ++ lang.shown ++ "/overrides.json"))
    (.raw (Text.ofChars (Json.write messages)))

def text (settings : List (Value × Value)) : Content → Except Fault Text
  | .raw s => .ok s
  | .document v =>
    match Yaml.Writer.write? false v with
    | some s => .ok (Text.ofChars s)
    | none => .error .tooDeep
  | .settings =>
    match Toml.write? settings with
    | some s => .ok s
    | none => .error .unwritable

/-- Writes a text to a file, which stays empty if the text cannot be encoded. -/
def writeText (path : Path) (s : Text) (t : Tree) : Except Fault Unit × Tree :=
  match t.write [] path ((Text.Utf8.encode? s).getD []) with
  | .error f => (.error (.file f), t)
  | .ok t => (if s.chars?.isSome then .ok () else .error .unencodable, t)

/-- Writes one planned file below a root. The directories above it stay, even if the file cannot be
written. -/
def writeFile (root : Path) (settings : List (Value × Value)) (t : Tree) (file : Value × Content) :
    Except Fault Unit × Tree :=
  match file.1 with
  | .text name =>
    let path := root.child name
    match t.makeDirectories [] (path.parts.length + 1) path.parent with
    | .error f => (.error (.file f), t)
    | .ok t =>
      match text settings file.2 with
      | .error f => (.error f, t)
      | .ok s => writeText path s t
  | _ => (.error .noText, t)

def writeFiles (root : Path) (settings : List (Value × Value)) :
    Tree → List (Value × Content) → Except Fault Unit × Tree
  | t, [] => (.ok (), t)
  | t, file :: files =>
    match writeFile root settings t file with
    | (.ok (), t) => writeFiles root settings t files
    | r => r

def build (w : Workspace) (root : Path) (t : Tree) : Except Fault Unit × Tree × Workspace :=
  let w := if w.settings.isEmpty then w else w.plan (.text Project.configurationName) .settings
  let (r, t) := writeFiles root w.settings t w.planned
  (r, t, w)

end Workspace
end SymbolRename.Fixture
