import SymbolRename.Text.Lines

/-!
# Indentation

Taking away the blanks and tabs that all lines of a text start with. Lines of nothing but blanks and
tabs become empty and do not count.
-/

set_option autoImplicit false

namespace SymbolRename.Text

def isIndent (c : Code) : Bool := c = ' ' || c = '\t'

def commonStart : Text → Text → Text
  | a :: s, b :: t => if a = b then a :: commonStart s t else []
  | _, _ => []

def emptyIfBlank (line : Text) : Text := if line.all isIndent then [] else line

/-- The indentation that lines have in common; empty lines do not count. -/
def commonIndent (ls : List Text) : Text :=
  match (ls.filter (!·.isEmpty)).map (·.takeWhile isIndent) with
  | [] => []
  | i :: is => is.foldl commonStart i

def dedent (s : Text) : Text :=
  let ls := (splitAt '\n' s).map emptyIfBlank
  joined "\n" (ls.map (·.drop (commonIndent ls).length))

end SymbolRename.Text
