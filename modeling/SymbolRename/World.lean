import SymbolRename.Batch
import SymbolRename.Fault
import SymbolRename.Message.Catalog

/-!
# The surroundings of the program

The files, the current directory and the language around the program, its message catalog, who
listens to its messages, and a journal of all that it has said. A message is made only if somebody
reads it: its template is looked up and filled at that moment, so what is noted down while a
language is read comes before it.
-/

set_option autoImplicit false

namespace SymbolRename

inductive Audience where
  | nobody
  | reader
  /-- A reader at a terminal, where what goes to standard output must be encoded. -/
  | terminal
  /-- Notices are kept as they are, and no message is made of them. -/
  | recorder
deriving DecidableEq

inductive Event where
  | message (level : Level) (text : Text)
  | recorded (n : Notice)
  | log (l : Log)
  | print (text : Text)

structure World where
  files : Files.Tree
  here : Files.Place
  language : Option Text
  catalog : Message.Catalog
  /-- Templates that stand in for the catalog, in every language. -/
  templates : Option (List (Value × Value))
  audience : Audience
  /-- What was said so far, the latest at the end. -/
  journal : List Event

namespace World

abbrev Act := Task World Fault

def say (events : List Event) : Act Unit :=
  modify fun w => { w with journal := w.journal ++ events }

def noted {α : Type} (result : α × List Log) : Act α := do
  say (result.2.map .log)
  return result.1

def orFault {ε α : Type} (wrap : ε → Fault) : Except ε α → Act α := Task.orFault wrap

def catalogTemplate (key : Text) (lang : Option Text) : Act Text := do
  let w ← get
  let chosen := Message.Catalog.chosen lang w.language
  Task.onPart (fun w => (⟨w.catalog, []⟩ : Message.Catalog.Desk))
    (fun d w => { w with catalog := d.catalog, journal := w.journal ++ d.logs.map .log })
    .messages (Message.Catalog.get w.files w.here chosen key)

/-- The template of a key: a text if it comes from the catalog. -/
def template (key : Text) (lang : Option Text) : Act Value := do
  match (← get).templates with
  | some ts => return (Value.field? key ts).getD (.text key)
  | none => return .text (← catalogTemplate key lang)

def formattingError (key : Text) : Text := "<formatting_error for \x27" ++ key ++ "\x27>"

section Rendering
variable {α : Type} [Template.Objects α]

/-- A template filled with arguments. One that names what is not there or is not well formed is
shown by its key; any other fault is not caught here. -/
def filled (key template : Text) (arguments : List (Text × α)) :
    Except Template.Fault Text :=
  match Template.fill template arguments with
  | .error .missing => .ok (formattingError key)
  | .error .malformed => .ok (formattingError key)
  | r => r

def render (key : Text) (arguments : List (Text × α)) : Act Text := do
  match ← template key none with
  | .text s => orFault .template (filled key s arguments)
  | _ => throw .noTemplate

/-- Argument names that a message cannot have. -/
def reservedNames : List Text := ["self", "msg_id"]

def hasReserved (names : List Text) (arguments : List (Text × α)) : Bool :=
  arguments.any fun a => names.contains a.1

def renderChecked (key : Text) (arguments : List (Text × α)) : Act Text :=
  if hasReserved reservedNames arguments then throw .reservedArgument else render key arguments

end Rendering

/-- Shows a text on standard output, if it can be encoded there. -/
def onOutput (event : Event) (text : Text) : Act Unit :=
  if text.chars?.isSome then say [event] else throw .unencodable

def tell (n : Notice) : Act Unit := do
  match (← get).audience with
  | .nobody => return ()
  | .reader => say [.message n.level (← render n.key n.arguments)]
  | .terminal =>
    let text ← render n.key n.arguments
    if n.level.isOutput then onOutput (.message n.level text) text
    else say [.message n.level text]
  | .recorder => say [.recorded n]

def tellChecked (n : Notice) : Act Unit :=
  if hasReserved ("level" :: reservedNames) n.arguments then throw .reservedArgument else tell n

def print (text : Text) : Act Unit := onOutput (.print text) text

end World

structure Desk where
  world : World
  function : Function

namespace Desk

def outside {α : Type} (act : World.Act α) : Task Desk Fault α :=
  Task.onPart Desk.world (fun w d => { d with world := w }) id act

def host : Host Desk Fault Handle :=
  Batch.memoryHost Desk.function fun f d => { d with function := f }

def tell (n : Notice) : Task Desk Fault Unit := outside (World.tell n)

end Desk
end SymbolRename
