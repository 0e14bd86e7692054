import SymbolRename.Config
import SymbolRename.Document
import SymbolRename.Message.Catalog
import SymbolRename.Report
import SymbolRename.Template.Layout
import SymbolRename.Yaml.Token

/-!
# Faults

Everything that can stop an operation of the program, by its cause.
-/

set_option autoImplicit false

namespace SymbolRename

inductive Fault where
  | refused (r : Refusal)
  /-- A document describes no function; it may have come from a file. -/
  | document (source : Option Files.Path) (f : Document.Fault)
  /-- What should be a document is not even a dictionary. -/
  | noDictionary
  | noResponse (p : Files.Path)
  | noDocument (p : Files.Path)
  | undecodable (f : Text.Utf8.Fault)
  /-- A text holds what cannot be encoded. -/
  | unencodable
  | file (f : Files.Fault)
  | content (f : Yaml.Fault)
  /-- A value is nested too deep to be written. -/
  | tooDeep
  | config (f : Config.Fault)
  | messages (f : Message.Fault)
  | template (f : Template.Fault)
  /-- What should be a template is no text. -/
  | noTemplate
  /-- An argument of a message has a name that is not free. -/
  | reservedArgument
  | report (f : Report.Fault)
  /-- A table holds what cannot be written. -/
  | unwritable
  /-- What should be a row of items is none. -/
  | noRow
  /-- What should be a text is none. -/
  | noText
  /-- A message that should have been sent was not. -/
  | notSent (key : Text) (seen : List Text)
  /-- A message that should not have been sent was. -/
  | sent (key : Text)

namespace Fault

def message? : Fault → Option Text
  | refused r => some r.message
  | document none f => f.message?
  | document (some p) f => f.message?.map fun m => p.text ++ ": " ++ m
  | noResponse p => some ("Response file not found at: " ++ p.text)
  | noDocument p => some ("Function document not found at: " ++ p.text)
  | undecodable f => some f.message
  | config (.undecodable f) => some f.message
  | notSent key seen => some ("Message with ID \x27" ++ key ++
      "\x27 was not sent.\nCaptured IDs: " ++ (Value.list (seen.map .text)).literal)
  | sent key => some ("Message with ID \x27" ++ key ++ "\x27 was sent unexpectedly.")
  | _ => none

end Fault
end SymbolRename
