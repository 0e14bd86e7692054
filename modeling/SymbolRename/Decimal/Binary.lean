/-!
# Doubles as exact numbers

A finite double is a natural number times a power of two, with a sign. Comparisons with integers
and the choice of decimal digits are made on this form, in exact arithmetic.
-/

set_option autoImplicit false

namespace SymbolRename.Decimal

/-- The number `mantissa * 2 ^ exponent`, negated if `negative`. -/
structure Binary where
  negative : Bool
  mantissa : Nat
  exponent : Int

def Binary.ofBits (b : UInt64) : Binary :=
  let e := ((b >>> 52) &&& 0x7FF).toNat
  let f := (b &&& 0xFFFFFFFFFFFFF).toNat
  let negative := b >>> 63 == 1
  if e = 0 then ⟨negative, f, -1074⟩ else ⟨negative, 0x10000000000000 + f, (e : Int) - 1075⟩

def Binary.ofFloat (x : Float) : Binary := Binary.ofBits x.toBits

/-- The magnitude is the fraction of `numerator` by `denominator`. -/
def Binary.numerator (x : Binary) : Nat := x.mantissa * Nat.pow 2 x.exponent.toNat

def Binary.denominator (x : Binary) : Nat := Nat.pow 2 (-x.exponent).toNat

/-- Twice as close to the double below as to the one above. -/
def Binary.narrowBelow (x : Binary) : Bool := x.mantissa == 0x10000000000000 && x.exponent > -1074

def Binary.toInt? (x : Binary) : Option Int :=
  if x.numerator % x.denominator = 0 then
    let n : Int := x.numerator / x.denominator
    some (if x.negative then -n else n)
  else none

/-- The integer that a double equals, if it is finite and has no fraction. -/
def integerOf? (x : Float) : Option Int :=
  if x.isNaN || x.isInf then none else (Binary.ofFloat x).toInt?

end SymbolRename.Decimal
