import SymbolRename.Decimal.Binary

/-!
# Choosing decimal digits

Two ways to give a double by decimal digits: the fewest that read back to the same double, the
closest of those, and a fixed number of them, rounded to nearest with ties to even. Both work on
exact fractions.
-/

set_option autoImplicit false

namespace SymbolRename.Decimal

/-- The number `digits * 10 ^ exponent`. -/
structure Digits where
  digits : Nat
  exponent : Int

/-- The nearest natural number to a fraction; a tie goes to the even neighbour. -/
def roundDiv (num den : Nat) : Nat :=
  let q := num / den
  match compare (2 * (num % den)) den with
  | .lt => q
  | .gt => q + 1
  | .eq => q + q % 2

def tenTo (e : Int) : Nat := Nat.pow 10 e.toNat

def digitCount (n : Nat) : Nat := (Nat.toDigits 10 n).length

/-- How many times a fraction below one must be taken tenfold until it is at least one. -/
def tenfolds (den : Nat) : Nat → Nat → Nat
  | 0, _ => 0
  | fuel + 1, num => if den ≤ num then 0 else 1 + tenfolds den fuel (num * 10)

/-- The least power of ten above a positive fraction. -/
def scale (num den : Nat) : Int :=
  if den ≤ num then digitCount (num / den) else 1 - (tenfolds den 400 num : Int)

/-- Among the reals that are closer to `x` than to any other double; the ends of the interval belong
to it if the mantissa is even. -/
def Binary.readsBack (x : Binary) (d : Digits) : Bool :=
  let unit := Nat.pow 2 x.exponent.toNat
  let value := d.digits * tenTo d.exponent * 4 * x.denominator
  let low := (4 * x.mantissa - (if x.narrowBelow then 1 else 2)) * unit * tenTo (-d.exponent)
  let high := (4 * x.mantissa + 2) * unit * tenTo (-d.exponent)
  if x.mantissa % 2 = 0 then low ≤ value && value ≤ high else low < value && value < high

/-- The two neighbours of a positive number on a decimal grid, the nearer one first. -/
def Binary.neighbours (x : Binary) (grid : Int) : List Digits :=
  let num := x.numerator * tenTo (-grid)
  let den := x.denominator * tenTo grid
  let near := roundDiv num den
  let far := if near = num / den then near + 1 else num / den
  [⟨near, grid⟩, ⟨far, grid⟩]

def stripZeros : Nat → Digits → Digits
  | 0, d => d
  | fuel + 1, d =>
    if d.digits % 10 = 0 && d.digits ≠ 0 then stripZeros fuel ⟨d.digits / 10, d.exponent + 1⟩ else d

/-- The exact value: a power of two below one is a power of five by the same power of ten. -/
def Binary.exact (x : Binary) : Digits :=
  if x.exponent < 0 then ⟨x.mantissa * Nat.pow 5 (-x.exponent).toNat, x.exponent⟩
  else ⟨x.numerator, 0⟩

/-- The fewest digits that read back, and of those the closest; zero has the digit zero. -/
def Binary.shortest (x : Binary) : Digits :=
  if x.mantissa = 0 then ⟨0, 0⟩
  else
    let k := scale x.numerator x.denominator
    let found := (List.range 17).findSome? fun (n : Nat) =>
      (x.neighbours (k - 1 - n)).find? x.readsBack
    stripZeros 20 (found.getD x.exact)

def roundedAt (num den : Nat) (places : Int) : Nat :=
  roundDiv (num * tenTo places) (den * tenTo (-places))

def significant (count num den : Nat) : Digits :=
  if num = 0 then ⟨0, 1 - count⟩
  else
    let grid := scale num den - count
    let d := roundedAt num den (-grid)
    if digitCount d > count then ⟨d / 10, grid + 1⟩ else ⟨d, grid⟩

end SymbolRename.Decimal
