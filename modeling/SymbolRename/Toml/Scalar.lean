import SymbolRename.Decimal.Reading
import SymbolRename.Value

/-!
# Scalars of TOML

Numbers, dates and times at the start of a text. Underscores may stand between digits; a decimal
integer has no zero in front; a moment may leave out its offset, its time or its date.
-/

set_option autoImplicit false

namespace SymbolRename.Toml
open Text

inductive Fault where
  | malformed
  /-- A decimal integer has more digits than can be read. -/
  | tooLong
  /-- Arrays and tables in a line are nested too deep. -/
  | tooDeep

def digitLimit : Nat := 4300

/-- Digits in a base, each after the first one perhaps behind an underscore. -/
def takeMore (base : Nat) : List Char → List Char × List Char
  | [] => ([], [])
  | c :: s =>
    if isDigitIn base c then
      let (digits, rest) := takeMore base s
      (c :: digits, rest)
    else if c = '_' then
      match s with
      | d :: s =>
        if isDigitIn base d then
          let (digits, rest) := takeMore base s
          (d :: digits, rest)
        else ([], c :: d :: s)
      | [] => ([], [c])
    else ([], c :: s)

def takeDigits (base : Nat) : List Char → Option (List Char × List Char)
  | [] => none
  | c :: s =>
    if isDigitIn base c then
      let (digits, rest) := takeMore base s
      some (c :: digits, rest)
    else none

/-- A zero alone, or digits that do not start with one. -/
def takeWhole : List Char → Option (List Char × List Char)
  | '0' :: s => some (['0'], s)
  | s => takeDigits 10 s

def takeFraction : List Char → List Char × List Char
  | '.' :: s => (takeDigits 10 s).getD ([], '.' :: s)
  | s => ([], s)

def takeExponent (s : List Char) : Option Int × List Char :=
  match s with
  | c :: r =>
    if c = 'e' || c = 'E' then
      let (negative, r) := Decimal.takeSign r
      match takeDigits 10 r with
      | some (digits, rest) =>
        let n : Int := digitsValue 10 digits
        (some (if negative then -n else n), rest)
      | none => (none, s)
    else (none, s)
  | [] => (none, s)

def takeMarked? : List Char → Option (Value × List Char)
  | '0' :: c :: s => do
    let base ← if c = 'x' then some 16 else if c = 'o' then some 8 else if c = 'b' then some 2
      else none
    let (digits, rest) ← takeDigits base s
    some (.int (digitsValue base digits), rest)
  | _ => none

def takeDecimal (s : List Char) : Except Fault (Value × List Char) := do
  let (negative, body) := Decimal.takeSign s
  let some (whole, rest) := takeWhole body | throw .malformed
  let (fraction, rest) := takeFraction rest
  let (exponent, rest) := takeExponent rest
  if fraction.isEmpty && exponent.isNone then
    if digitLimit < whole.length then throw .tooLong
    let n : Int := digitsValue 10 whole
    return (.int (if negative then -n else n), rest)
  let x := Decimal.nearestFloat (digitsValue 10 (whole ++ fraction))
    (exponent.getD 0 - fraction.length)
  return (.float (Decimal.signed negative x), rest)

def takeFloatWord? (s : List Char) : Option (Value × List Char) :=
  let (negative, body) := Decimal.takeSign s
  let found := fun (word : String) (x : Float) =>
    (word.toList.isPrefixOf? body).map fun rest => (Value.float (Decimal.signed negative x), rest)
  (found "inf" (1 / 0)).or (found "nan" (0 / 0))

/-- Exactly as many digits as asked for, within bounds. -/
def takeNat (count low high : Nat) (s : List Char) : Option (Nat × List Char) := do
  let n ← if (s.take count).length = count then natIn? 10 (s.take count) else none
  if low ≤ n && n ≤ high then some (n, s.drop count) else none

def takeChar (c : Char) : List Char → Option (List Char)
  | d :: s => if c = d then some s else none
  | [] => none

/-- A fraction of a second in microseconds; further digits are dropped. -/
def takeMicroseconds : List Char → Nat × List Char
  | '.' :: s =>
    let digits := s.takeWhile Char.isDigit
    if digits.isEmpty then (0, '.' :: s)
    else (digitsValue 10 (padEnd 6 '0' (digits.take 6)), s.dropWhile Char.isDigit)
  | s => (0, s)

def takeTime? (s : List Char) : Option (TimeOfDay × List Char) := do
  let (hour, s) ← takeNat 2 0 23 s
  let (minute, s) ← takeNat 2 0 59 (← takeChar ':' s)
  let (second, s) ← takeNat 2 0 59 (← takeChar ':' s)
  let (microsecond, s) := takeMicroseconds s
  some (⟨hour, minute, second, microsecond⟩, s)

def takeDate? (s : List Char) : Option (Date × List Char) := do
  let (year, s) ← takeNat 4 0 9999 s
  let (month, s) ← takeNat 2 1 12 (← takeChar '-' s)
  let (day, s) ← takeNat 2 1 31 (← takeChar '-' s)
  some (⟨year, month, day⟩, s)

def takeOffset? : List Char → Option (Int × List Char)
  | c :: s =>
    if c = 'Z' || c = 'z' then some (0, s)
    else if c = '+' || c = '-' then do
      let (hour, s) ← takeNat 2 0 23 s
      let (minute, s) ← takeNat 2 0 59 (← takeChar ':' s)
      let offset : Int := hour * 60 + minute
      some (if c = '-' then -offset else offset, s)
    else none
  | [] => none

def takeTimeAfterDate? : List Char → Option (TimeOfDay × List Char)
  | c :: s => if c = 'T' || c = 't' || c = ' ' then takeTime? s else none
  | [] => none

def takeMoment? (s : List Char) : Option (Except Fault (Value × List Char)) :=
  match takeDate? s with
  | some (date, rest) => some (
      if !date.isValid then .error .malformed
      else match takeTimeAfterDate? rest with
        | none => .ok (.date date, rest)
        | some (time, rest) => match takeOffset? rest with
          | some (offset, rest) => .ok (.dateTime ⟨date, time, some offset⟩, rest)
          | none => .ok (.dateTime ⟨date, time, none⟩, rest))
  | none => (takeTime? s).map fun (time, rest) => .ok (.time time, rest)

end SymbolRename.Toml
