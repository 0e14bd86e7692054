import SymbolRename.Decimal.Reading
import SymbolRename.Text.Utf8
import SymbolRename.Value

/-!
# Reading JSON

The grammar of JSON with three words more, for no number and the two infinities. A key that comes
again keeps its first place and takes the last value. A number without fraction and exponent is an
integer, of at most as many digits as the limit says, and arrays and objects are nested only so
deep. The first fault in the order of the text is told.
-/

set_option autoImplicit false

namespace SymbolRename.Json
open Text

inductive Fault where
  | malformed
  /-- Arrays and objects are nested too deep. -/
  | tooDeep
deriving DecidableEq

def isSpace (c : Char) : Bool := c = ' ' || c = '\t' || c = '\n' || c = '\r'

def skipSpace (s : List Char) : List Char := s.dropWhile isSpace

def digitLimit : Nat := 4300

/-- The most arrays and objects that may stand one inside another. -/
def depthLimit : Nat := 985

def escape? : Char → Option Nat
  | '"' => some 0x22
  | '\\' => some 0x5C
  | '/' => some 0x2F
  | 'b' => some 8
  | 'f' => some 12
  | 'n' => some 10
  | 'r' => some 13
  | 't' => some 9
  | _ => none

def takeCodes : List Char → Option (List Nat × List Char)
  | [] => none
  | c :: s =>
    if c = '"' then some ([], s)
    else if c = '\\' then
      match s with
      | 'u' :: h1 :: h2 :: h3 :: h4 :: s =>
        if [h1, h2, h3, h4].all isHexDigit then
          (takeCodes s).map fun (codes, rest) => (digitsValue 16 [h1, h2, h3, h4] :: codes, rest)
        else none
      | e :: s => match escape? e with
        | some n => (takeCodes s).map fun (codes, rest) => (n :: codes, rest)
        | none => none
      | [] => none
    else if c.toNat < 0x20 then none
    else (takeCodes s).map fun (codes, rest) => (c.toNat :: codes, rest)

/-- The code points of a text; two surrogates that make a pair are one character. -/
def joinCodes : List Nat → Text
  | [] => []
  | a :: b :: codes =>
    if 0xD800 ≤ a && a < 0xDC00 && 0xDC00 ≤ b && b < 0xE000 then
      .ofNat (0x10000 + (a - 0xD800) * 0x400 + (b - 0xDC00)) :: joinCodes codes
    else .ofNat a :: joinCodes (b :: codes)
  | [a] => [.ofNat a]

def takeText? (s : List Char) : Option (Text × List Char) :=
  (takeCodes s).map fun (codes, rest) => (joinCodes codes, rest)

def takeFraction : List Char → List Char × List Char
  | '.' :: s =>
    let digits := s.takeWhile Char.isDigit
    if digits.isEmpty then ([], '.' :: s) else (digits, s.dropWhile Char.isDigit)
  | s => ([], s)

def takeExponent (s : List Char) : Option Int × List Char :=
  match s with
  | c :: r =>
    if c = 'e' || c = 'E' then
      let (negative, r) := Decimal.takeSign r
      let digits := r.takeWhile Char.isDigit
      if digits.isEmpty then (none, s)
      else
        let n : Int := digitsValue 10 digits
        (some (if negative then -n else n), r.dropWhile Char.isDigit)
    else (none, s)
  | [] => (none, s)

/-- The digits before the point: a zero ends them. -/
def takeWhole : List Char → List Char × List Char
  | '0' :: s => (['0'], s)
  | s => (s.takeWhile Char.isDigit, s.dropWhile Char.isDigit)

def takeNumber? (s : List Char) : Option (Value × List Char) := do
  let (negative, body) := match s with
    | '-' :: r => (true, r)
    | r => (false, r)
  let (whole, rest) := takeWhole body
  if whole.isEmpty then none
  let (fraction, rest) := takeFraction rest
  let (exponent, rest) := takeExponent rest
  if fraction.isEmpty && exponent.isNone then
    if digitLimit < whole.length then none
    let n : Int := digitsValue 10 whole
    some (.int (if negative then -n else n), rest)
  else
    let x := Decimal.nearestFloat (digitsValue 10 (whole ++ fraction))
      (exponent.getD 0 - fraction.length)
    some (.float (Decimal.signed negative x), rest)

def words : List (List Char × Value) :=
  [("null".toList, .null), ("true".toList, .bool true), ("false".toList, .bool false),
    ("NaN".toList, .float (0 / 0)), ("Infinity".toList, .float (1 / 0)),
    ("-Infinity".toList, .float (-1 / 0))]

def takeWord? (s : List Char) : Option (Value × List Char) :=
  words.findSome? fun (word, v) => (word.isPrefixOf? s).map fun rest => (v, rest)

def orMalformed {α : Type} : Option α → Except Fault α
  | some a => .ok a
  | none => .error .malformed

mutual

/-- A value at the start of a text. The first argument bounds twice the length, as an array opens
with two steps; the second counts the arrays and objects that may still be opened. -/
def takeValue : Nat → Nat → List Char → Except Fault (Value × List Char)
  | 0, _, _ => .error .malformed
  | fuel + 1, depth, s =>
    match s, depth with
    | '"' :: s, _ => (orMalformed (takeText? s)).map fun (t, rest) => (.text t, rest)
    | '[' :: _, 0 => .error .tooDeep
    | '\x7b' :: _, 0 => .error .tooDeep
    | '[' :: s, depth + 1 =>
      match skipSpace s with
      | ']' :: rest => .ok (.list [], rest)
      | s => (takeItems fuel depth s).map fun (items, rest) => (.list items, rest)
    | '\x7b' :: s, depth + 1 =>
      match skipSpace s with
      | '\x7d' :: rest => .ok (.dict [], rest)
      | s =>
        (takeMembers fuel depth s).map fun (members, rest) => (.dict (Entries.ofList members), rest)
    | s, _ => orMalformed ((takeWord? s).or (takeNumber? s))

def takeItems : Nat → Nat → List Char → Except Fault (List Value × List Char)
  | 0, _, _ => .error .malformed
  | fuel + 1, depth, s => do
    let (v, rest) ← takeValue fuel depth s
    match skipSpace rest with
    | ']' :: rest => return ([v], rest)
    | ',' :: rest =>
      let (vs, rest) ← takeItems fuel depth (skipSpace rest)
      return (v :: vs, rest)
    | _ => throw .malformed

def takeMembers : Nat → Nat → List Char → Except Fault (List (Value × Value) × List Char)
  | 0, _, _ => .error .malformed
  | fuel + 1, depth, s =>
    match s with
    | '"' :: s => do
      let (k, rest) ← orMalformed (takeText? s)
      match skipSpace rest with
      | ':' :: rest =>
        let (v, rest) ← takeValue fuel depth (skipSpace rest)
        match skipSpace rest with
        | '\x7d' :: rest => return ([(.text k, v)], rest)
        | ',' :: rest =>
          let (ms, rest) ← takeMembers fuel depth (skipSpace rest)
          return ((.text k, v) :: ms, rest)
        | _ => throw .malformed
      | _ => throw .malformed
    | _ => .error .malformed

end

def read (s : List Char) : Except Fault Value := do
  let s := skipSpace s
  let (v, rest) ← takeValue (2 * s.length + 2) depthLimit s
  if (skipSpace rest).isEmpty then return v else throw .malformed

end SymbolRename.Json
