import SymbolRename.Text

/-!
# Lines

A text is cut into lines at every line boundary of Unicode, of which carriage return with line
feed counts as one. The last line needs no boundary after it, and the empty text has no line.
Reading a file or standard input keeps one boundary only: the line feed.
-/

set_option autoImplicit false

namespace SymbolRename.Text

def isLineBreak (c : Code) : Bool :=
  (0x0A ≤ c.toNat && c.toNat ≤ 0x0D) || (0x1C ≤ c.toNat && c.toNat ≤ 0x1E) ||
    c.toNat == 0x85 || c.toNat == 0x2028 || c.toNat == 0x2029

def extendFirst (c : Code) : List Text → List Text
  | [] => [[c]]
  | l :: ls => (c :: l) :: ls

def lines : Text → List Text
  | [] => []
  | .char '\r' :: .char '\n' :: s => [] :: lines s
  | c :: s => if isLineBreak c then [] :: lines s else extendFirst c (lines s)

/-- Writes every carriage return, alone or before a line feed, as a line feed. -/
def unifyBreaks : List Char → List Char
  | [] => []
  | '\r' :: '\n' :: s => '\n' :: unifyBreaks s
  | c :: s => (if c = '\r' then '\n' else c) :: unifyBreaks s

/-- Pieces between occurrences of a code point: always one more than there are of these. -/
def splitAt (separator : Code) : Text → List Text
  | [] => [[]]
  | c :: s =>
    if c = separator then [] :: splitAt separator s else extendFirst c (splitAt separator s)

end SymbolRename.Text
