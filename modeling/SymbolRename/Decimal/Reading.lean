import SymbolRename.Text.Digit
import SymbolRename.Text.Numeral

/-!
# Reading decimals

A decimal number has an optional sign, digits with at most one point and at least one digit, and an
optional exponent; blanks may stand around it, and its digits may be those of any script. The words
for infinity and for no number are read in any case.
-/

set_option autoImplicit false

namespace SymbolRename.Decimal
open Text

/-- The double nearest to `digits * 10 ^ exponent`, settled without arithmetic where it is zero or
infinite by far. -/
def nearestFloat (digits : Nat) (exponent : Int) : Float :=
  let magnitude := exponent + (Nat.toDigits 10 digits).length
  if digits = 0 || magnitude < -400 then 0
  else if 400 < magnitude then 1 / 0
  else Float.ofScientific digits (exponent < 0) exponent.natAbs

def signed (negative : Bool) (x : Float) : Float := if negative then -x else x

def takeSign : List Char → Bool × List Char
  | '-' :: r => (true, r)
  | '+' :: r => (false, r)
  | r => (false, r)

/-- An exponent after its mark; no mark means zero. -/
def exponent? : List Char → Option Int
  | [] => some 0
  | c :: r =>
    if c = 'e' || c = 'E' then
      let (negative, digits) := takeSign r
      (natIn? 10 digits).map fun n => if negative then -(n : Int) else n
    else none

def magnitude? (s : List Char) : Option Float :=
  let whole := s.takeWhile Char.isDigit
  let rest := s.dropWhile Char.isDigit
  let (fraction, tail) := match rest with
    | '.' :: r => (r.takeWhile Char.isDigit, r.dropWhile Char.isDigit)
    | r => ([], r)
  if whole.isEmpty && fraction.isEmpty then none
  else (exponent? tail).map fun e =>
    nearestFloat (digitsValue 10 (whole ++ fraction)) (e - fraction.length)

def isWord (words : List String) (s : List Char) : Bool :=
  words.contains (String.ofList (s.map Char.toLower))

def float? (text : Text) : Option Float := do
  let (negative, body) := takeSign (← numeral? text)
  if isWord ["inf", "infinity"] body then some (signed negative (1 / 0))
  else if isWord ["nan"] body then some (0 / 0)
  else (magnitude? body).map (signed negative)

/-- The rest of a numeral after the mark of its base, which may be left out. -/
def dropBaseMark (base : Nat) : List Char → List Char
  | '0' :: c :: r =>
    let mark := c.toLower
    if base = 16 && mark = 'x' || base = 8 && mark = 'o' || base = 2 && mark = 'b' then r
    else '0' :: c :: r
  | s => s

/-- An integer in a base, with a sign, the mark of the base and blanks around it. -/
def integer? (base : Nat) (text : Text) : Option Int := do
  let (negative, body) := takeSign (← numeral? text)
  (natIn? base (dropBaseMark base body)).map fun n => if negative then -(n : Int) else n

end SymbolRename.Decimal
