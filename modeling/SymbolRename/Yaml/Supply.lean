import SymbolRename.Text.Lines
import SymbolRename.Text.Utf8

/-!
# The supply of characters

A document is read from its file in pieces, and only as far as its characters are asked for: the
bytes in parts that are decoded one by one, the characters in portions that are checked one by one.
What no document may hold, or what cannot be decoded, therefore does no harm while the characters
before it are looked at. A supply is the characters that can be had, and what is at fault behind
them.
-/

set_option autoImplicit false

namespace SymbolRename.Yaml

inductive Fault where
  /-- The text breaks the rules of the language, or holds something that has no value. -/
  | unreadable
  | undecodable (f : Text.Utf8.Fault)
  /-- Collections stand too deep one inside another, or a scalar stands for itself. -/
  | tooDeep
  /-- An escape names a code beyond the last character. -/
  | beyondCharacters
  /-- An escape names a code that does not even fit a machine word. -/
  | beyondWord
  /-- A scalar marked as a truth value is not one of the words for it. -/
  | noTruthValue
  /-- A scalar marked as a number has no digits. -/
  | emptyNumber
  /-- A scalar marked as a number does not read as one, or has too many digits. -/
  | noNumber
  /-- A scalar marked as a moment does not read as one. -/
  | noMoment
  /-- A part of a number in base sixty counts for more than any double. -/
  | beyondDoubles
  /-- A mapping is marked as a moment. -/
  | momentInMapping
  /-- A moment that no calendar or clock shows. -/
  | impossibleMoment
deriving DecidableEq

/-- Characters that a document may hold. -/
def isAllowed (c : Char) : Bool :=
  let n := c.toNat
  n = 0x9 || n = 0xA || n = 0xD || (0x20 ≤ n && n ≤ 0x7E) || n = 0x85 || (0xA0 ≤ n && n ≤ 0xD7FF) ||
    (0xE000 ≤ n && n ≤ 0xFFFD) || 0x10000 ≤ n

structure Supply where
  chars : List Char
  ending : Option Fault

namespace Supply

/-- The characters of a portion; the first two portions come together. -/
def portion : Nat := 4096

/-- The bytes of a part, unless the portion needs more of them. -/
def partSize : Nat := 8192

def portionStart (index : Nat) : Nat :=
  if index < 2 * portion then 0 else index / portion * portion

structure Decoding where
  /-- Bytes that start a character and do not finish it. -/
  held : List UInt8
  /-- A carriage return came last and waits for what follows it. -/
  returned : Bool
  /-- How many characters there are so far. -/
  count : Nat
  /-- The bytes of the last part by its characters. -/
  ratio : Float

def Decoding.start : Decoding := ⟨[], false, 0, 0⟩

/-- The bytes that the next part is to have, at the rate of the last one. -/
def Decoding.nextSize (d : Decoding) : Nat :=
  let missing := portion - d.count % portion
  max partSize ((if d.ratio < 1 then 1 else d.ratio) * missing.toFloat).toUInt64.toNat

/-- The characters of a part, with its line breaks as line feeds; a carriage return at its end waits
for the next part, unless this is the last one. -/
def Decoding.take (d : Decoding) (part : List UInt8) (isLast : Bool) :
    Except Text.Utf8.Fault (List Char × Decoding) := do
  let (now, later) :=
    if isLast then (d.held ++ part, []) else Text.Utf8.holdBack (d.held ++ part)
  let s ← Text.Utf8.decode now
  let s := if d.returned && (isLast || !s.isEmpty) then '\r' :: s else s
  let waits := !isLast && s.getLast? = some '\r'
  let s := Text.unifyBreaks (if waits then s.dropLast else s)
  let returned := waits || (d.returned && !isLast && s.isEmpty)
  let ratio := if s.isEmpty then 0 else part.length.toFloat / s.length.toFloat
  return (s, ⟨later, returned, d.count + s.length, ratio⟩)

/-- The characters of a file, part by part, up to a part that cannot be decoded. The first argument
bounds the number of parts. -/
def decodeParts : Nat → Decoding → List UInt8 → List (List Char) × Option Text.Utf8.Fault
  | 0, _, _ => ([], none)
  | fuel + 1, d, bytes =>
    let part := bytes.take d.nextSize
    match d.take part part.isEmpty with
    | .error f => ([], some f)
    | .ok (s, d) =>
      if part.isEmpty then ([s], none)
      else
        let (ss, f) := decodeParts fuel d (bytes.drop part.length)
        (s :: ss, f)

/-- Characters up to the portion of the first one that no document may hold. -/
def upToForbidden (s : List Char) : Supply :=
  match s.findIdx? (!isAllowed ·) with
  | none => ⟨s, none⟩
  | some i => ⟨s.take (portionStart i), some .unreadable⟩

def ofBytes (bytes : List UInt8) : Supply :=
  let (ss, fault) := decodeParts (bytes.length + 1) .start bytes
  let s := ss.flatten
  match fault with
  | none => upToForbidden s
  | some f =>
    let supply := upToForbidden (s.take (portionStart s.length))
    if supply.ending.isSome then supply else ⟨supply.chars, some (.undecodable f)⟩

end Supply
end SymbolRename.Yaml
