import SymbolRename.Decimal.Digits
import SymbolRename.Text.Numeral

/-!
# Decimal notation

How chosen digits are laid out: with a point and a fixed number of places, with an exponent of at
least two digits and a sign, or in the plain way, which uses an exponent only below a
ten-thousandth and from ten to the sixteenth on, and always shows that the number is no integer.
-/

set_option autoImplicit false

namespace SymbolRename.Decimal
open Text

/-- Digits with the point before the last `places` of them; no point if there are none. -/
def pointed (places : Nat) (digits : List Char) : List Char :=
  let s := padStart (places + 1) '0' digits
  let whole := s.take (s.length - places)
  if places = 0 then whole else whole ++ '.' :: s.drop (s.length - places)

def exponentText (mark : Char) (e : Int) : List Char :=
  mark :: (if e < 0 then '-' else '+') :: zeroPadded 2 e.natAbs

/-- The first digit, the point, the other digits and the exponent of the first digit. -/
def scientific (mark : Char) (digits : List Char) (e : Int) : List Char :=
  pointed (digits.length - 1) digits ++ exponentText mark e

def Digits.leading (d : Digits) : Int := d.exponent + digitCount d.digits - 1

/-- Digits laid out by place value, with zeros where the digits do not reach the point. -/
def Digits.positional (d : Digits) : List Char :=
  if d.exponent < 0 then pointed (-d.exponent).toNat (decimal d.digits)
  else decimal d.digits ++ List.replicate d.exponent.toNat '0'

def Digits.plain (d : Digits) : List Char :=
  if -4 ≤ d.leading && d.leading < 16 then
    if d.exponent < 0 then d.positional else d.positional ++ ['.', '0']
  else scientific 'e' (decimal d.digits) d.leading

/-- The shortest text that reads back to the same double. -/
def plainText (x : Float) : List Char :=
  if x.isNaN then ['n', 'a', 'n']
  else if x.isInf then (if x < 0 then ['-', 'i', 'n', 'f'] else ['i', 'n', 'f'])
  else
    let b := Binary.ofFloat x
    (if b.negative then ['-'] else []) ++ b.shortest.plain

end SymbolRename.Decimal
