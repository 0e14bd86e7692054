import SymbolRename.Text.Blank

/-!
# Decimal digits

Many scripts have decimal digits of their own, ten in a row from zero to nine. Where a numeral may
be written in any of them it is turned into one of ASCII first. The table is that of Unicode 14.
-/

set_option autoImplicit false

namespace SymbolRename.Text

def zeros : List Nat :=
  [0x30, 0x660, 0x6F0, 0x7C0, 0x966, 0x9E6, 0xA66, 0xAE6, 0xB66, 0xBE6, 0xC66, 0xCE6, 0xD66, 0xDE6,
    0xE50, 0xED0, 0xF20, 0x1040, 0x1090, 0x17E0, 0x1810, 0x1946, 0x19D0, 0x1A80, 0x1A90, 0x1B50,
    0x1BB0, 0x1C40, 0x1C50, 0xA620, 0xA8D0, 0xA900, 0xA9D0, 0xA9F0, 0xAA50, 0xABF0, 0xFF10,
    0x104A0, 0x10D30, 0x11066, 0x110F0, 0x11136, 0x111D0, 0x112F0, 0x11450, 0x114D0, 0x11650,
    0x116C0, 0x11730, 0x118E0, 0x11950, 0x11C50, 0x11D50, 0x11DA0, 0x16A60, 0x16AC0, 0x16B50,
    0x1D7CE, 0x1D7D8, 0x1D7E2, 0x1D7EC, 0x1D7F6, 0x1E140, 0x1E2F0, 0x1E950, 0x1FBF0]

def decimalDigit? (c : Code) : Option Nat :=
  (zeros.find? fun z => z ≤ c.toNat && c.toNat < z + 10).map (c.toNat - ·)

def isDecimalDigit (c : Code) : Bool := (decimalDigit? c).isSome

/-- The value of a run of decimal digits; any other code point counts as a zero. -/
def decimalValue (s : Text) : Nat := s.foldl (fun n c => n * 10 + (decimalDigit? c).getD 0) 0

/-- A code point of a numeral in ASCII: a digit of any script is that digit, and a blank beyond
ASCII is a space. Nothing else beyond ASCII can stand in a numeral. -/
def numeralChar? (c : Code) : Option Char :=
  match c with
  | .half _ => none
  | .char x =>
    if x.toNat < 0x7F then some x
    else if isBlank c then some ' '
    else (decimalDigit? c).map fun n => Char.ofNat (0x30 + n)

def isNumeralBlank (c : Char) : Bool := c = ' ' || (0x09 ≤ c.toNat && c.toNat ≤ 0x0D)

def numeral? (s : Text) : Option (List Char) :=
  (s.mapM numeralChar?).map fun cs =>
    ((cs.dropWhile isNumeralBlank).reverse.dropWhile isNumeralBlank).reverse

end SymbolRename.Text
