import SymbolRename.Decimal.Notation
import SymbolRename.Text.Quoted
import SymbolRename.Value

/-!
# Writing JSON

On one line, with a blank after each comma and colon, in ASCII: every other character is written by
its 16-bit units. Keys are texts; the keys that are words or numbers become the text of them.
-/

set_option autoImplicit false

namespace SymbolRename.Json
open Text

def unitEscape (n : Nat) : List Char := '\\' :: 'u' :: hexCode 4 n

def escapeChar (c : Char) : List Char :=
  if c = '"' then ['\\', '"']
  else if c = '\\' then ['\\', '\\']
  else if c = '\n' then ['\\', 'n']
  else if c = '\r' then ['\\', 'r']
  else if c = '\t' then ['\\', 't']
  else if c.toNat = 8 then ['\\', 'b']
  else if c.toNat = 12 then ['\\', 'f']
  else if isAsciiPrintable c then [c]
  else if c.toNat < 0x10000 then unitEscape c.toNat
  else
    unitEscape (0xD800 + (c.toNat - 0x10000) / 0x400) ++
      unitEscape (0xDC00 + (c.toNat - 0x10000) % 0x400)

def escape : Code → List Char
  | .char c => escapeChar c
  | .half n => unitEscape (Code.half n).toNat

def quoted (s : Text) : List Char := '"' :: s.flatMap escape ++ ['"']

def numberText (x : Float) : List Char :=
  if x.isNaN then "NaN".toList
  else if x.isInf then (if x < 0 then "-Infinity".toList else "Infinity".toList)
  else Decimal.plainText x

def keyText : Value → Text
  | .text s => s
  | .null => "null"
  | .bool b => if b then "true" else "false"
  | .int i => ofChars (signedDecimal i)
  | .float x => ofChars (numberText x)
  | _ => []

def separated (items : List (List Char)) : List Char := [',', ' '].intercalate items

mutual

/-- A value in JSON; what JSON has no form for is written as nothing. -/
def write : Value → List Char
  | .null => "null".toList
  | .bool b => if b then "true".toList else "false".toList
  | .int i => signedDecimal i
  | .float x => numberText x
  | .text s => quoted s
  | .list items => '[' :: separated (itemTexts items) ++ [']']
  | .tuple items => '[' :: separated (itemTexts items) ++ [']']
  | .dict entries => '\x7b' :: separated (entryTexts entries) ++ ['\x7d']
  | _ => []

def itemTexts : List Value → List (List Char)
  | [] => []
  | v :: vs => write v :: itemTexts vs

def entryTexts : List (Value × Value) → List (List Char)
  | [] => []
  | (k, v) :: es => (quoted (keyText k) ++ ':' :: ' ' :: write v) :: entryTexts es

end

end SymbolRename.Json
