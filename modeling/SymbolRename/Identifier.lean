import SymbolRename.Value

/-!
# Identifiers

The names a C program may give to its variables: an ASCII letter or underscore, then letters, digits
and underscores, and none of the words that the language keeps for itself.
-/

set_option autoImplicit false

namespace SymbolRename.Identifier

def reserved : List Text :=
  ["auto", "break", "case", "char", "const", "continue", "default", "do", "double", "else", "enum",
    "extern", "float", "for", "goto", "if", "int", "long", "register", "return", "short", "signed",
    "sizeof", "static", "struct", "switch", "typedef", "union", "unsigned", "void", "volatile",
    "while"]

def isHead (c : Code) : Bool := c.passes Char.isAlpha || c = '_'

def isTail (c : Code) : Bool := isHead c || c.passes Char.isDigit

/-- A name by its characters, reserved or not. -/
def isName : Text → Bool
  | [] => false
  | c :: s => isHead c && s.all isTail

def isValid (name : Text) : Bool := isName name && !reserved.contains name

/-- Only a text can be an identifier. -/
def accepts : Value → Bool
  | .text s => isValid s
  | _ => false

def lead? : Text → Option (Text × Text)
  | [] => none
  | c :: s => if isHead c then some (c :: s.takeWhile isTail, s.dropWhile isTail) else none

end SymbolRename.Identifier
