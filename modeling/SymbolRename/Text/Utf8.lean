import SymbolRename.Text
import SymbolRename.Text.Numeral

/-!
# UTF-8

Strict decoding. A fault names the bytes that stand where no character can be read: a byte that
starts no character, the part of a character whose next byte does not belong to it, or a character
that the end of the data cuts off.
-/

set_option autoImplicit false

namespace SymbolRename.Text.Utf8

inductive Cause where
  | start
  | continuation
  | truncated
deriving DecidableEq

def Cause.message : Cause → Text
  | .start => "invalid start byte"
  | .continuation => "invalid continuation byte"
  | .truncated => "unexpected end of data"

structure Fault where
  bytes : List UInt8
  position : Nat
  cause : Cause
deriving DecidableEq

def hexByte (b : UInt8) : Text := [.char (hexDigit (b.toNat / 16)), .char (hexDigit (b.toNat % 16))]

def Fault.message (f : Fault) : Text :=
  let place : Text := match f.bytes with
    | [b] => "byte 0x" ++ hexByte b ++ " in position " ++ ofChars (decimal f.position)
    | bs => "bytes in position " ++ ofChars (decimal f.position) ++ "-" ++
        ofChars (decimal (f.position + bs.length - 1))
  "\x27utf-8\x27 codec can\x27t decode " ++ place ++ ": " ++ f.cause.message

def isTail (b : UInt8) : Bool := 0x80 ≤ b && b ≤ 0xBF

def bits (b : UInt8) (k : Nat) : Nat := b.toNat % Nat.pow 2 k

/-- The second bytes that may follow a leading byte: some are shut out, so that every character
has one form and none is a surrogate or lies beyond the last code point. -/
def secondFits (lead second : UInt8) : Bool :=
  isTail second &&
    (if lead = 0xE0 then 0xA0 ≤ second
     else if lead = 0xED then second < 0xA0
     else if lead = 0xF0 then 0x90 ≤ second
     else if lead = 0xF4 then second < 0x90
     else true)

def width? (b : UInt8) : Option Nat :=
  if b < 0x80 then some 1
  else if b < 0xC2 then none
  else if b < 0xE0 then some 2
  else if b < 0xF0 then some 3
  else if b < 0xF5 then some 4
  else none

/-- How many of the bytes belong to the character that the first one starts. -/
def fitting (lead : UInt8) : List UInt8 → Nat
  | [] => 0
  | s :: rest => if secondFits lead s then 1 + (rest.takeWhile isTail).length else 0

def first : List UInt8 → Except (Cause × Nat) (Char × Nat)
  | [] => .error (.truncated, 0)
  | b :: rest =>
    match width? b with
    | none => .error (.start, 1)
    | some w =>
      let tail := rest.take (w - 1)
      let good := fitting b tail
      if good + 1 = w then
        let lead := if w = 1 then b.toNat else bits b (7 - w)
        .ok (Char.ofNat (tail.foldl (fun n t => n * 64 + bits t 6) lead), w)
      else if good = tail.length then .error (.truncated, good + 1)
      else .error (.continuation, good + 1)

/-- Decodes after skipping the bytes that belong to the character read last. -/
def decodeFrom (position : Nat) : Nat → List UInt8 → Except Fault (List Char)
  | _, [] => .ok []
  | skip + 1, _ :: rest => decodeFrom (position + 1) skip rest
  | 0, b :: rest =>
    match first (b :: rest) with
    | .error (cause, n) => .error ⟨(b :: rest).take n, position, cause⟩
    | .ok (c, n) => (decodeFrom (position + 1) (n - 1) rest).map (c :: ·)

def decode (bytes : List UInt8) : Except Fault (List Char) := decodeFrom 0 0 bytes

/-- Two of the three bytes that would be a surrogate. -/
def startsSurrogate : List UInt8 → Bool
  | [lead, second] => lead = 0xED && isTail second
  | _ => false

/-- Splits off the bytes at the end that start a character or a surrogate and do not finish it. -/
def holdBack (bytes : List UInt8) : List UInt8 × List UInt8 :=
  match decode bytes with
  | .error f =>
    let rest := bytes.drop f.position
    if f.cause = .truncated || startsSurrogate rest then (bytes.take f.position, rest)
    else (bytes, [])
  | .ok _ => (bytes, [])

def encode (s : List Char) : List UInt8 := s.flatMap String.utf8EncodeChar

def encode? (s : Text) : Option (List UInt8) := s.chars?.map encode

end SymbolRename.Text.Utf8
