import SymbolRename.Identifier
import SymbolRename.Text.Blank
import SymbolRename.Text.Lines

/-!
# Rename directives

A response is free text. Each of its lines that reads `old -> new`, or that with a colon and a
reason after it, asks for one rename; every other line is passed over, and so is one whose new name
no C program could use. Blanks around the line and around the reason do not count.
-/

set_option autoImplicit false

namespace SymbolRename

structure Directive where
  oldName : Text
  newName : Text
  reason : Text
deriving DecidableEq

namespace Directive
open Text

def arrow : Text := " -> "

/-- What may follow the new name: nothing, or a colon and the reason. -/
def reason? : Text → Option Text
  | [] => some []
  | .char ':' :: s => some (trim s)
  | _ => none

def ofTrimmed? (line : Text) : Option Directive := do
  let (old, rest) ← Identifier.lead? line
  let rest ← arrow.isPrefixOf? rest
  let (new, rest) ← Identifier.lead? rest
  let reason ← reason? rest
  if Identifier.isValid new then some ⟨old, new, reason⟩ else none

def ofLine? (line : Text) : Option Directive := ofTrimmed? (trim line)

/-- The directives of a response, in the order of its lines; the same rename may be asked for more
than once. -/
def parse (response : Text) : List Directive := (lines response).filterMap ofLine?

end Directive
end SymbolRename
