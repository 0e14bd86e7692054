/-!
# Numerals

Natural numbers written in a base from two to sixteen, and read back. Reading takes digits only:
no sign, no blank, no separator.
-/

set_option autoImplicit false

namespace SymbolRename.Text

def hexDigit (n : Nat) : Char :=
  if n < 10 then Char.ofNat (0x30 + n) else Char.ofNat (0x57 + n)

/-- The digits of a number, least significant first, at most `fuel` of them. -/
def digitsFrom (base : Nat) : Nat → Nat → List Char
  | 0, _ => []
  | fuel + 1, n =>
    hexDigit (n % base) :: (if n < base then [] else digitsFrom base fuel (n / base))

def inBase (base n : Nat) : List Char := (digitsFrom base (n.log2 + 1) n).reverse

def decimal (n : Nat) : List Char := inBase 10 n

def signedDecimal (i : Int) : List Char :=
  if i < 0 then '-' :: decimal i.natAbs else decimal i.natAbs

def padStart (width : Nat) (fill : Char) (s : List Char) : List Char :=
  List.replicate (width - s.length) fill ++ s

def padEnd (width : Nat) (fill : Char) (s : List Char) : List Char :=
  s ++ List.replicate (width - s.length) fill

def zeroPadded (width n : Nat) : List Char := padStart width '0' (decimal n)

def digitValue (c : Char) : Nat :=
  if c.isDigit then c.toNat - 0x30
  else if c.isLower then c.toNat - 0x57
  else if c.isUpper then c.toNat - 0x37
  else 36

def isDigitIn (base : Nat) (c : Char) : Bool := digitValue c < base

/-- The value of a run of digits; characters that are no digits count for what they are worth. -/
def digitsValue (base : Nat) (s : List Char) : Nat :=
  s.foldl (fun n c => n * base + digitValue c) 0

def natIn? (base : Nat) (s : List Char) : Option Nat :=
  if !s.isEmpty && s.all (isDigitIn base) then some (digitsValue base s) else none

def isHexDigit (c : Char) : Bool := isDigitIn 16 c

end SymbolRename.Text
