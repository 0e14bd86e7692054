import SymbolRename.Decimal.Reading
import SymbolRename.Text.Base64
import SymbolRename.Value
import SymbolRename.Yaml.Tag

/-!
# What scalars of YAML say

The value that the text of a scalar has by its tag. Numbers may be written with digits of any script
if they are marked as numbers.
-/

set_option autoImplicit false

namespace SymbolRename.Yaml.Content

def orFault {α : Type} (f : Fault) (x : Option α) : Except Fault α :=
  match x with
  | some a => .ok a
  | none => .error f

def withoutLines (s : Text) : Text := s.filter (· ≠ .char '_')

def takeSign : Text → Bool × Text
  | .char '-' :: s => (true, s)
  | .char '+' :: s => (false, s)
  | s => (false, s)

def digitLimit : Nat := 4300

def decimalInteger? (s : Text) : Option Int :=
  if s.countP Text.isDecimalDigit ≤ digitLimit then Decimal.integer? 10 s else none

def withSign (negative : Bool) (i : Int) : Int := if negative then -i else i

/-- The magnitude of an integer: bits after `0b`, hexadecimal digits after `0x`, octal digits after
any other zero, base sixty with colons, or decimal digits. -/
def magnitude? (s : Text) : Option Int :=
  match s with
  | [.char '0'] => some 0
  | .char '0' :: .char 'b' :: r => Decimal.integer? 2 r
  | .char '0' :: .char 'x' :: r => Decimal.integer? 16 r
  | .char '0' :: _ => Decimal.integer? 8 s
  | _ =>
    if s.contains (.char ':') then
      ((Text.splitAt ':' s).mapM decimalInteger?).map fun ds => ds.foldl (fun n d => n * 60 + d) 0
    else decimalInteger? s

def integer (text : Text) : Except Fault Int :=
  let (negative, s) := takeSign (withoutLines text)
  if s.isEmpty then .error .emptyNumber
  else orFault .noNumber ((magnitude? s).map (withSign negative))

/-- Numbers in base sixty from the least one on; a power that no double reaches is a fault. -/
def sumSixties : Nat → List Float → Float → Except Fault Float
  | _, [], sum => .ok sum
  | place, x :: xs, sum =>
    let unit := Decimal.nearestFloat (Nat.pow 60 place) 0
    if unit.isInf then .error .beyondDoubles else sumSixties (place + 1) xs (sum + x * unit)

def lowerCode : Code → Code
  | .char c => .char c.toLower
  | .half n => .half n

def isNoNumber (text : Text) : Bool :=
  (takeSign ((withoutLines text).map lowerCode)).2 = ".nan"

def float (text : Text) : Except Fault Float := do
  let whole := (withoutLines text).map lowerCode
  let (negative, s) := takeSign whole
  if whole.isEmpty then throw .emptyNumber
  if isNoNumber text then return 0 / 0
  if s = ".inf" then return Decimal.signed negative (1 / 0)
  if s.contains (.char ':') then
    let parts ← orFault .noNumber ((Text.splitAt ':' s).mapM Decimal.float?)
    return Decimal.signed negative (← sumSixties 0 parts.reverse 0)
  let x ← orFault .noNumber (Decimal.float? s)
  return Decimal.signed negative x

def yesWords : List Text := ["yes", "true", "on"]

def noWords : List Text := ["no", "false", "off"]

def bool (text : Text) : Except Fault Bool :=
  let word := text.map lowerCode
  if yesWords.contains word then .ok true
  else if noWords.contains word then .ok false
  else .error .noTruthValue

def binary (text : Text) : Except Fault (List UInt8) := do
  let s ← orFault .unreadable text.chars?
  if s.all (·.toNat < 0x80) then orFault .unreadable (Text.Base64.decode? s)
  else throw .unreadable

def number (s : List Char) : Nat := Text.digitsValue 10 s

/-- Six digits of the fraction of a second count. -/
def microseconds (fraction : List Char) : Nat := number (Text.padEnd 6 '0' (fraction.take 6))

/-- Minutes from universal time. -/
def offset (zone : Option (Char × List Char × List Char)) : Int :=
  match zone with
  | none => 0
  | some (sign, hours, minutes) =>
    withSign (sign = '-') ((number hours * 60 + number minutes : Nat) : Int)

def moment (text : Text) : Except Fault Value := do
  let m ← orFault .noMoment (MomentText.ofText? text)
  let date : Date := ⟨number m.year, number m.month, number m.day⟩
  match m.clock with
  | none => if date.isValid then return .date date else throw .impossibleMoment
  | some (hour, minute, second, fraction) =>
    let time : TimeOfDay := ⟨number hour, number minute, number second, microseconds fraction⟩
    let t : DateTime := ⟨date, time, m.zone.map offset⟩
    if t.isValid then return .dateTime t else throw .impossibleMoment

end SymbolRename.Yaml.Content
