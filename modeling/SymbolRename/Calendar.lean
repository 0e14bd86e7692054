import SymbolRename.Text
import SymbolRename.Text.Numeral

/-!
# Dates and times

Calendar dates of the years 1 to 9999 and times of day, with an offset from universal time where
one is given.
-/

set_option autoImplicit false

namespace SymbolRename

structure Date where
  year : Nat
  month : Nat
  day : Nat
deriving DecidableEq

structure TimeOfDay where
  hour : Nat
  minute : Nat
  second : Nat
  microsecond : Nat
deriving DecidableEq

/-- A moment; the offset from universal time is in minutes. -/
structure DateTime where
  date : Date
  time : TimeOfDay
  offset : Option Int
deriving DecidableEq

def isLeapYear (y : Nat) : Bool := y % 4 == 0 && (y % 100 != 0 || y % 400 == 0)

def daysInMonth (y m : Nat) : Nat :=
  if m = 2 then (if isLeapYear y then 29 else 28)
  else if m = 4 || m = 6 || m = 9 || m = 11 then 30
  else 31

def Date.isValid (d : Date) : Bool :=
  1 ≤ d.year && d.year ≤ 9999 && 1 ≤ d.month && d.month ≤ 12 && 1 ≤ d.day &&
    d.day ≤ daysInMonth d.year d.month

def TimeOfDay.isValid (t : TimeOfDay) : Bool :=
  t.hour < 24 && t.minute < 60 && t.second < 60 && t.microsecond < 1000000

/-- An offset is less than a day either way. -/
def DateTime.isValid (t : DateTime) : Bool :=
  t.date.isValid && t.time.isValid &&
    match t.offset with
    | none => true
    | some m => m.natAbs < 1440

def Date.text (d : Date) : List Char :=
  Text.zeroPadded 4 d.year ++ '-' :: Text.zeroPadded 2 d.month ++ '-' :: Text.zeroPadded 2 d.day

/-- The fraction of a second is left out when it is zero. -/
def TimeOfDay.text (t : TimeOfDay) : List Char :=
  let fraction := if t.microsecond = 0 then [] else '.' :: Text.zeroPadded 6 t.microsecond
  Text.zeroPadded 2 t.hour ++ ':' :: Text.zeroPadded 2 t.minute ++
    ':' :: Text.zeroPadded 2 t.second ++ fraction

def offsetText (m : Int) : List Char :=
  (if m < 0 then '-' else '+') :: Text.zeroPadded 2 (m.natAbs / 60) ++
    ':' :: Text.zeroPadded 2 (m.natAbs % 60)

def DateTime.text (separator : Char) (t : DateTime) : List Char :=
  t.date.text ++ separator :: t.time.text ++ (t.offset.map offsetText).getD []

def daysBeforeYear (y : Nat) : Nat :=
  (y - 1) * 365 + (y - 1) / 4 - (y - 1) / 100 + (y - 1) / 400

def daysBeforeMonth (y : Nat) : Nat → Nat
  | 0 => 0
  | 1 => 0
  | m + 1 => daysBeforeMonth y m + daysInMonth y m

def Date.ordinal (d : Date) : Nat := daysBeforeYear d.year + daysBeforeMonth d.year d.month + d.day

/-- Microseconds from the start of year 1, taken to universal time where the offset is known. -/
def DateTime.instant (t : DateTime) : Int :=
  ((t.date.ordinal * 86400 + t.time.hour * 3600 + t.time.minute * 60 + t.time.second : Nat) -
    (t.offset.getD 0) * 60) * 1000000 + t.time.microsecond

/-- Two moments are the same if both know their offset and name one instant, or neither knows it
and all fields agree. -/
def DateTime.same (s t : DateTime) : Bool :=
  s.offset.isSome == t.offset.isSome && s.instant == t.instant

def constructorText (name : Text) (fields : List Text) : Text :=
  name ++ "(" ++ Text.joined ", " fields ++ ")"

def Date.fields (d : Date) : List Text :=
  [Text.ofChars (Text.decimal d.year), Text.ofChars (Text.decimal d.month),
    Text.ofChars (Text.decimal d.day)]

def Date.literal (d : Date) : Text := constructorText "datetime.date" d.fields

/-- Seconds and microseconds at the end are left out while they are zero. -/
def TimeOfDay.fields (t : TimeOfDay) : List Text :=
  let seconds := if t.second = 0 && t.microsecond = 0 then [] else [t.second]
  let microseconds := if t.microsecond = 0 then [] else [t.microsecond]
  (t.hour :: t.minute :: seconds ++ microseconds).map fun n =>
    Text.ofChars (Text.decimal n)

def TimeOfDay.literal (t : TimeOfDay) : Text := constructorText "datetime.time" t.fields

def offsetLiteral (m : Int) : Text :=
  if m = 0 then "datetime.timezone.utc"
  else
    let delta : List Text :=
      if m < 0 then ["days=-1", "seconds=" ++ Text.ofChars (Text.signedDecimal ((m + 1440) * 60))]
      else ["seconds=" ++ Text.ofChars (Text.signedDecimal (m * 60))]
    constructorText "datetime.timezone" [constructorText "datetime.timedelta" delta]

def DateTime.literal (t : DateTime) : Text :=
  constructorText "datetime.datetime"
    (t.date.fields ++ t.time.fields ++
      (t.offset.map fun m => "tzinfo=" ++ offsetLiteral m).toList)

end SymbolRename
