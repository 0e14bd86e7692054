import SymbolRename.Decimal.Notation
import SymbolRename.Decimal.Reading
import SymbolRename.Template.Layout
import SymbolRename.Value.Shown

/-!
# Presentations

Texts and numbers laid out. A number is a sign, a mark of its base, digits that may be parted into
groups, and a tail of point, fraction and exponent; padding with zeros after the sign takes part in
the grouping.
-/

set_option autoImplicit false

namespace SymbolRename.Template
open Text

/-- A text takes no sign, no mark and no inner padding; the precision cuts it. -/
def presentText (l : Layout) (s : Text) : Except Fault Text := do
  let a := l.alignmentOr .left
  if l.letter ≠ some 's' || l.sign.isSome || l.positiveZero || l.alternate || a = .inner then
    throw .malformed
  l.checkSize 0
  return l.pad a (match l.precision with
    | some n => s.take n
    | none => s)

structure Number where
  negative : Bool
  mark : List Char
  digits : List Char
  tail : Text

def signText (sign : Option Char) (negative : Bool) : List Char :=
  if negative then ['-']
  else match sign with
    | some '+' => ['+']
    | some ' ' => [' ']
    | _ => []

/-- Digits in groups, all least significant first, with zeros up to the width that is left. -/
def groupsFrom (size : Nat) : Nat → Int → List Char → List (List Char)
  | 0, _, _ => []
  | fuel + 1, width, digits =>
    let n := min size (max (max digits.length width.toNat) 1)
    let group := padEnd n '0' (digits.take n)
    let width := width - n
    if (digits.drop n).isEmpty && width ≤ 0 then [group]
    else group :: groupsFrom size fuel (width - 1) (digits.drop n)

def grouped (separator : Char) (size : Nat) (width : Int) (digits : List Char) : List Char :=
  (List.intercalate [separator]
    (groupsFrom size (digits.length + width.toNat + 1) width digits.reverse)).reverse

/-- Bases that are powers of two are grouped by four digits, the others by three. -/
def groupSize (letter : Option Char) : Nat :=
  if letter.any ("boxX".toList.contains ·) then 4 else 3

def presentNumber (l : Layout) (n : Number) : Text :=
  let a := l.alignmentOr .right
  let sign := signText l.sign n.negative
  let fixed := sign.length + n.mark.length + n.tail.length
  let least : Int := if l.fill = .char '0' && a = .inner then l.width.getD 0 - fixed else 0
  let digits :=
    if n.digits.isEmpty then []
    else match l.separator with
      | some c => grouped c (groupSize l.letter) least n.digits
      | none => padStart least.toNat '0' n.digits
  let before := Text.ofChars sign ++ Text.ofChars n.mark
  let after := Text.ofChars digits ++ n.tail
  match a with
  | .inner => before ++ List.replicate (l.width.getD 0 - (before ++ after).length) l.fill ++ after
  | a => l.pad a (before ++ after)

def baseOf : Option Char → Nat
  | some 'b' => 2
  | some 'o' => 8
  | some 'x' => 16
  | some 'X' => 16
  | _ => 10

def baseMark : Option Char → List Char
  | some 'b' => ['0', 'b']
  | some 'o' => ['0', 'o']
  | some 'x' => ['0', 'x']
  | some 'X' => ['0', 'X']
  | _ => []

def presentInteger (l : Layout) (i : Int) : Except Fault Text := do
  if l.precision.isSome || l.positiveZero then throw .malformed
  if l.letter = some 'c' then
    if l.sign.isSome || l.alternate then throw .malformed
    if i < 0 || 0x10FFFF < i then throw .tooLarge
    l.checkSize 0
    return presentNumber l ⟨false, [], [], [.ofNat i.toNat]⟩
  else
    if baseOf l.letter = 10 && Value.isTooLong i then throw .malformed
    l.checkSize 0
    let digits := inBase (baseOf l.letter) i.natAbs
    let digits := if l.letter = some 'X' then digits.map Char.toUpper else digits
    return presentNumber l ⟨i < 0, if l.alternate then baseMark l.letter else [], digits, []⟩

/-- Digits around the point, the point being after the given number of them; in the alternate form
the point is kept where no fraction follows. -/
def placePoint (alternate : Bool) (whole fraction : List Char) : List Char × List Char :=
  (whole, if fraction.isEmpty && !alternate then [] else '.' :: fraction)

/-- No double has more digits, before the point or after it, that are no zeros at an end. -/
def mostDigits : Nat := 1100

def fixedDigits (alternate : Bool) (places num den : Nat) : List Char × List Char :=
  let exact := min places mostDigits
  let s := padStart (exact + 1) '0' (decimal (Decimal.roundedAt num den exact))
  placePoint alternate (s.take (s.length - exact)) (padEnd places '0' (s.drop (s.length - exact)))

/-- The digits, the leading one at the given power of ten, with an exponent. -/
def exponentDigits (alternate : Bool) (digits : List Char) (e : Int) : List Char × List Char :=
  let (whole, tail) := placePoint alternate (digits.take 1) (digits.drop 1)
  (whole, tail ++ Decimal.exponentText 'e' e)

/-- The digits, the leading one at the given power of ten, by place value; at least `least` places
after the point. -/
def placedDigits (alternate : Bool) (least : Nat) (digits : List Char) (e : Int) :
    List Char × List Char :=
  if e < 0 then placePoint alternate ['0'] (List.replicate (-e - 1).toNat '0' ++ digits)
  else
    let n := e.toNat + 1
    placePoint alternate (padEnd n '0' (digits.take n)) (padEnd least '0' (digits.drop n))

/-- As many significant digits as the precision, without the zeros at the end unless the form is
alternate. -/
def generalDigits (alternate : Bool) (least precision num den : Nat) : List Char × List Char :=
  let count := max precision 1
  let held := if alternate then count else min count mostDigits
  let d := Decimal.significant (min count mostDigits) num den
  let digits := padEnd held '0' (decimal d.digits)
  let e := if num = 0 then 0 else d.leading
  let kept := if alternate then digits
    else digits.take (max 1 (digits.reverse.dropWhile (· = '0')).length)
  if e < -4 || (count : Int) - least ≤ e then exponentDigits alternate kept e
  else placedDigits alternate least kept e

/-- The digits that read back to the same double, and a point in any case. -/
def plainDigits (alternate : Bool) (x : Decimal.Binary) : List Char × List Char :=
  let d := x.shortest
  let digits := decimal d.digits
  if d.leading < -4 || 16 ≤ d.leading then exponentDigits alternate digits d.leading
  else placedDigits alternate 1 digits d.leading

def floatDigits (l : Layout) (x : Decimal.Binary) : List Char × List Char :=
  let num := x.numerator
  let den := x.denominator
  let precision := l.precision.getD 6
  match l.letter with
  | none => match l.precision with
    | none => plainDigits l.alternate x
    | some p => generalDigits l.alternate 1 p num den
  | some c =>
    match c.toLower with
    | 'e' =>
      let d := Decimal.significant (min (precision + 1) mostDigits) num den
      exponentDigits l.alternate (padEnd (precision + 1) '0' (decimal d.digits))
        (if num = 0 then 0 else d.leading)
    | 'g' | 'n' => generalDigits l.alternate 0 precision num den
    | '%' =>
      let (whole, tail) := fixedDigits l.alternate precision num den
      (whole, tail ++ ['%'])
    | _ => fixedDigits l.alternate precision num den

def isUpperLetter (l : Option Char) : Bool := l.any Char.isUpper

def wordOf (x : Float) : List Char := if x.isNaN then ['n', 'a', 'n'] else ['i', 'n', 'f']

/-- The places that a presentation fills up to the precision, whatever the number. -/
def placesFilled (l : Layout) : Nat :=
  let general := l.letter.all ("gGn".toList.contains ·)
  if general && !l.alternate then 0 else l.precision.getD 0

def presentFloat (l : Layout) (x : Float) : Except Fault Text := do
  if l.letter.any fun c => !("eEfFgGn%".toList.contains c) then throw .malformed
  if l.precision.any (0x7FFFFFFF < ·) then throw .malformed
  l.checkSize 0
  let x := if l.letter = some '%' then x * 100 else x
  let upper := fun (s : List Char) => if isUpperLetter l.letter then s.map Char.toUpper else s
  let percent := if l.letter = some '%' then ['%'] else []
  if x.isNaN || x.isInf then
    return presentNumber l ⟨x < 0, [], [],
      Text.ofChars (upper (wordOf x)) ++ Text.ofChars percent⟩
  l.checkSize (placesFilled l)
  let b := Decimal.Binary.ofFloat x
  let (whole, tail) := floatDigits l b
  let isZero := (whole ++ tail.takeWhile (· ≠ 'e')).all fun c => !('1' ≤ c && c ≤ '9')
  return presentNumber l ⟨b.negative && !(l.positiveZero && isZero), [], whole,
    Text.ofChars (upper tail)⟩

/-- An integer that is presented with a fraction is taken to the nearest double first. -/
def presentIntegerAsFloat (l : Layout) (i : Int) : Except Fault Text :=
  let x := Decimal.signed (i < 0) (Decimal.nearestFloat i.natAbs 0)
  if x.isInf then .error .tooLarge else presentFloat l x

end SymbolRename.Template
