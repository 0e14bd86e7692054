/-!
# Base sixty-four

Three bytes written as four characters, the last group filled up with equals signs. Reading passes
over characters that are not of the alphabet and stops where a group is filled up; a group that is
neither whole nor filled up is no text of bytes.
-/

set_option autoImplicit false

namespace SymbolRename.Text.Base64

def character (n : Nat) : Char :=
  if n < 26 then Char.ofNat (0x41 + n)
  else if n < 52 then Char.ofNat (0x61 + (n - 26))
  else if n < 62 then Char.ofNat (0x30 + (n - 52))
  else if n = 62 then '+'
  else '/'

def value? (c : Char) : Option Nat :=
  if c.isUpper then some (c.toNat - 0x41)
  else if c.isLower then some (c.toNat - 0x61 + 26)
  else if c.isDigit then some (c.toNat - 0x30 + 52)
  else if c = '+' then some 62
  else if c = '/' then some 63
  else none

/-- The values of the characters up to the end of the text or of its last group. The first argument
is how many values the group has so far, the second how many signs fill it up. -/
def values? : Nat → Nat → List Char → Option (List Nat)
  | held, _, [] => if held = 0 then some [] else none
  | held, filled, c :: s =>
    if c = '=' then
      if held < 2 then values? held filled s
      else if 4 ≤ held + filled + 1 then some []
      else values? held (filled + 1) s
    else match value? c with
      | none => values? held filled s
      | some v => (values? ((held + 1) % 4) 0 s).map (v :: ·)

def byte (n : Nat) : UInt8 := UInt8.ofNat n

def unpack : List Nat → List UInt8
  | a :: b :: c :: d :: vs =>
    byte (a * 4 + b / 16) :: byte (b * 16 + c / 4) :: byte (c * 64 + d) :: unpack vs
  | [a, b, c] => [byte (a * 4 + b / 16), byte (b * 16 + c / 4)]
  | [a, b] => [byte (a * 4 + b / 16)]
  | _ => []

def decode? (s : List Char) : Option (List UInt8) := (values? 0 0 s).map unpack

def group (a b c : Nat) : List Char :=
  [character (a / 4), character (a % 4 * 16 + b / 16), character (b % 16 * 4 + c / 64),
    character (c % 64)]

def encode : List UInt8 → List Char
  | a :: b :: c :: bytes => group a.toNat b.toNat c.toNat ++ encode bytes
  | [a, b] => (group a.toNat b.toNat 0).take 3 ++ ['=']
  | [a] => (group a.toNat 0 0).take 2 ++ ['=', '=']
  | [] => []

/-- Lines of at most seventy-six characters. The first argument bounds their number. -/
def wrapped : Nat → List Char → List (List Char)
  | 0, _ => []
  | fuel + 1, s => if s.isEmpty then [] else s.take 76 :: wrapped fuel (s.drop 76)

def encodeLines (bytes : List UInt8) : List (List Char) :=
  wrapped (bytes.length + 2) (encode bytes)

end SymbolRename.Text.Base64
