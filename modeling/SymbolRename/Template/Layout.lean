import SymbolRename.Text.Digit
import SymbolRename.Text.Numeral

/-!
# Layout of a field

What may stand after the colon of a field: a fill character and an alignment, a sign, marks for
negative zero and for the alternate form, a zero, a width, a separator of digit groups, a precision
and a letter for the presentation, each of them optional, in this order and with nothing after them.
-/

set_option autoImplicit false

namespace SymbolRename.Template

inductive Fault where
  /-- A field names an argument, a key or an item that is not there. -/
  | missing
  /-- The template or a layout is not well formed, or the layout does not suit the argument. -/
  | malformed
  /-- An argument has no such attribute. -/
  | noAttribute
  /-- An argument cannot be indexed, or has no layouts. -/
  | wrongKind
  /-- A number is too large for the presentation. -/
  | tooLarge
  /-- A field is wider than any text can be. -/
  | tooWide
  /-- An argument is nested too deep to be shown. -/
  | tooDeep
  /-- What is asked for is there, but these definitions leave it out. -/
  | unmodelled
deriving DecidableEq

inductive Alignment where
  | left
  | right
  | center
  /-- The padding stands between the sign and the digits. -/
  | inner
deriving DecidableEq

structure Layout where
  fill : Code
  alignment : Option Alignment
  /-- A zero before the width: numbers are padded with zeros after the sign. -/
  zero : Bool
  sign : Option Char
  positiveZero : Bool
  alternate : Bool
  width : Option Nat
  separator : Option Char
  precision : Option Nat
  letter : Option Char

namespace Layout
open Text

def alignment? : Code → Option Alignment
  | .char '<' => some .left
  | .char '>' => some .right
  | .char '^' => some .center
  | .char '=' => some .inner
  | _ => none

/-- The fill character and the alignment; a character before an alignment sign is the fill. -/
def takeAlignment : Text → Option Code × Option Alignment × Text
  | f :: a :: s =>
    match alignment? a, alignment? f with
    | some x, _ => (some f, some x, s)
    | none, some x => (none, some x, a :: s)
    | none, none => (none, none, f :: a :: s)
  | [a] => match alignment? a with
    | some x => (none, some x, [])
    | none => (none, none, [a])
  | [] => (none, none, [])

def takeOne (p : Char → Bool) : Text → Option Char × Text
  | .char c :: s => if p c then (some c, s) else (none, c :: s)
  | s => (none, s)

def limit : Nat := 0x7FFFFFFFFFFFFFFF

def takeCount (s : Text) : Except Fault (Option Nat × Text) :=
  let digits := s.takeWhile isDecimalDigit
  if digits.isEmpty then .ok (none, s)
  else
    let n := decimalValue digits
    if n ≤ limit then .ok (some n, s.dropWhile isDecimalDigit) else .error .malformed

def takePrecision : Text → Except Fault (Option Nat × Text)
  | .char '.' :: s => do
    let (n, rest) ← takeCount s
    if n.isNone then .error .malformed else return (n, rest)
  | s => .ok (none, s)

def groups (separator : Char) : Option Char → Bool
  | none => true
  | some l => "\x00defgEG%F".toList.contains l || (separator = '_' && "boxX".toList.contains l)

/-- The letter for the presentation. Where none is meant without a letter, a zero code means that
too. -/
def takeLetter (standard : Option Char) : Text → Except Fault (Option Char)
  | [] => .ok standard
  | [.char c] => .ok (if c = '\x00' && standard.isNone then none else some c)
  | _ => .error .malformed

/-- Reads a layout; `standard` is the presentation that is meant when there is no letter. -/
def read (standard : Option Char) (s : Text) : Except Fault Layout := do
  let (fill, alignment, s) := takeAlignment s
  let (sign, s) := takeOne (fun c => c = '+' || c = '-' || c = ' ') s
  let (positive, s) := takeOne (· = 'z') s
  let (alternate, s) := takeOne (· = '#') s
  let (zero, s) := if fill.isNone then takeOne (· = '0') s else (none, s)
  let (width, s) ← takeCount s
  let (separator, s) := takeOne (fun c => c = ',' || c = '_') s
  if separator.isSome && (takeOne (fun c => c = ',' || c = '_') s).1.isSome then throw .malformed
  let (precision, s) ← takePrecision s
  let letter ← takeLetter standard s
  if separator.any fun c => !groups c letter then throw .malformed
  return ⟨fill.getD (.char (if zero.isSome then '0' else ' ')), alignment, zero.isSome, sign,
    positive.isSome, alternate.isSome, width, separator, precision, letter⟩

def alignmentOr (l : Layout) (own : Alignment) : Alignment :=
  l.alignment.getD (if l.zero && own = .right then .inner else own)

/-- The most code points that a presentation may take up. -/
def memory : Nat := 0x100000000

/-- A field that takes up a number of code points, or its whole width, is refused if that is too
much. -/
def checkSize (l : Layout) (size : Nat) : Except Fault Unit :=
  if memory < max (l.width.getD 0) size then .error .tooWide else .ok ()

/-- Pads a text on both sides up to the width; with inner alignment on the right. -/
def pad (l : Layout) (a : Alignment) (s : Text) : Text :=
  let n := l.width.getD 0 - s.length
  let before := match a with
    | .right => n
    | .center => n / 2
    | _ => 0
  List.replicate before l.fill ++ s ++ List.replicate (n - before) l.fill

end Layout
end SymbolRename.Template
