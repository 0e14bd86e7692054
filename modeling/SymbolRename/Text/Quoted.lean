import SymbolRename.Text.Numeral
import SymbolRename.Text.Printable

/-!
# Quoted text

The literal of a text inside a list or a diagnostic: single quotes, unless the text holds a single
quote and no double one. A backslash stands before the quote and the backslash; line feed, carriage
return and tab have letters, and what is not printable is written by its code in two, four or eight
hexadecimal digits.
-/

set_option autoImplicit false

namespace SymbolRename.Text

def hexCode (width n : Nat) : List Char := padStart width '0' (inBase 16 n)

def codeEscape (n : Nat) : List Char :=
  if n ≤ 0xFF then '\\' :: 'x' :: hexCode 2 n
  else if n ≤ 0xFFFF then '\\' :: 'u' :: hexCode 4 n
  else '\\' :: 'U' :: hexCode 8 n

/-- A code point inside a literal that is closed by `quote`; `plain` tells which characters stand
for themselves. -/
def escapeIn (plain : Char → Bool) (quote : Char) : Code → List Char
  | .half n => codeEscape (Code.half n).toNat
  | .char c =>
    if c = quote || c = '\\' then ['\\', c]
    else if c = '\n' then ['\\', 'n']
    else if c = '\r' then ['\\', 'r']
    else if c = '\t' then ['\\', 't']
    else if plain c then [c]
    else codeEscape c.toNat

def quoteFor (s : Text) : Char :=
  if s.contains (.char '\x27') && !s.contains (.char '"') then '"' else '\x27'

def literalWith (plain : Char → Bool) (s : Text) : List Char :=
  quoteFor s :: s.flatMap (escapeIn plain (quoteFor s)) ++ [quoteFor s]

def isAsciiPrintable (c : Char) : Bool := 0x20 ≤ c.toNat && c.toNat < 0x7F

def literal (s : Text) : List Char := literalWith isPrintable s

def asciiEscape : Code → List Char
  | .half n => codeEscape (Code.half n).toNat
  | .char c => if c.toNat < 0x80 then [c] else codeEscape c.toNat

def asciiOnly (s : Text) : List Char := s.flatMap asciiEscape

/-- A byte string is quoted as the text of its bytes, with a letter in front. -/
def bytesLiteral (bytes : List UInt8) : List Char :=
  'b' :: literalWith isAsciiPrintable (bytes.map fun b => .char (Char.ofNat b.toNat))

end SymbolRename.Text
