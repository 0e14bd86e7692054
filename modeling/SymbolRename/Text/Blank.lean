import SymbolRename.Text

/-!
# Blank characters

The characters that carry no ink and may stand around a line: the Unicode white space and the four
information separators below the space. Trimming takes them off both ends of a text.
-/

set_option autoImplicit false

namespace SymbolRename.Text

/-- Closed ranges of code points, ascending and apart. -/
def blankRanges : List (Nat × Nat) :=
  [(0x09, 0x0D), (0x1C, 0x20), (0x85, 0x85), (0xA0, 0xA0), (0x1680, 0x1680), (0x2000, 0x200A),
    (0x2028, 0x2029), (0x202F, 0x202F), (0x205F, 0x205F), (0x3000, 0x3000)]

def inRanges (ranges : List (Nat × Nat)) (n : Nat) : Bool :=
  ranges.any fun r => r.1 ≤ n && n ≤ r.2

def isBlank (c : Code) : Bool := inRanges blankRanges c.toNat

def trimStart (s : Text) : Text := s.dropWhile isBlank

def trimEnd (s : Text) : Text := (trimStart s.reverse).reverse

def trim (s : Text) : Text := trimEnd (trimStart s)

end SymbolRename.Text
