import SymbolRename.Text.Numeral
import SymbolRename.Yaml.Tag

/-!
# Styles of YAML scalars

How a scalar is written: plain if its text reads back as what it is, else between single quotes, or
between double quotes with escapes if it holds what only an escape can show. Long lines are folded:
between single blanks, or inside double quotes at any blank and after any escape.
-/

set_option autoImplicit false

namespace SymbolRename.Yaml

inductive Style where
  | plain (s : List Char)
  | single (s : List Char)
  | double (s : Text)

namespace Style

/-- The column after which a line is folded. -/
def lineWidth : Nat := 80

def isGap (c : Char) : Bool := isBlank c || isBreak c || c = '\r' || c.toNat = 0

def isAscii (c : Char) : Bool := 0x20 ≤ c.toNat && c.toNat ≤ 0x7E

def isWide (c : Char) : Bool :=
  let n := c.toNat
  (n = 0x85 || (0xA0 ≤ n && n ≤ 0xD7FF) || (0xE000 ≤ n && n ≤ 0xFFFD) ||
    (0x10000 ≤ n && n < 0x10FFFF)) && n ≠ 0xFEFF

def needsEscape (unicode : Bool) (c : Char) : Bool :=
  !(c = '\n' || isAscii c || (unicode && isWide c))

/-- Two neighbours of the given kinds, in this order. -/
def hasPair (p q : Char → Bool) : List Char → Bool
  | a :: b :: s => (p a && q b) || hasPair p q (b :: s)
  | _ => false

def leadSigns : List Char :=
  ['#', ',', '[', ']', '\x7b', '\x7d', '&', '*', '!', '|', '>', '\x27', '"', '%', '@', '\x60']

/-- A sign at the start of a text that would mean something else than the text. -/
def leadsAstray : List Char → Bool
  | [] => false
  | c :: s =>
    leadSigns.contains c || ((c = '?' || c = '-') && s.head?.all isGap) ||
      ['-', '-', '-'].isPrefixOf (c :: s) || ['.', '.', '.'].isPrefixOf (c :: s)

def breaksOff (s : List Char) : Bool :=
  s.getLast? = some ':' || hasPair (· = ':') isGap s || hasPair isGap (· = '#') s

def isSpaceOrBreak (c : Char) : Bool := c = ' ' || isBreak c

def fitsPlain (unicode : Bool) (s : List Char) : Bool :=
  !s.head?.any isSpaceOrBreak && !s.getLast?.any isSpaceOrBreak && !s.any isBreak &&
    !s.any (needsEscape unicode) && !leadsAstray s && !breaksOff s

/-- Blanks next to a break do not last between single quotes. -/
def fitsSingle (unicode : Bool) (s : List Char) : Bool :=
  !hasPair isBreak (· = ' ') s && !hasPair (· = ' ') isBreak s && !s.any (needsEscape unicode)

def ofChars (unicode : Bool) (s : List Char) : Style :=
  if Tag.ofChars s = .text && fitsPlain unicode s then plain s
  else if fitsSingle unicode s then single s
  else double (.ofChars s)

/-- The style of a text. What is no character needs an escape. -/
def ofText (unicode : Bool) (s : Text) : Style :=
  match s.chars? with
  | some cs => ofChars unicode cs
  | none => double s

def length : Style → Nat
  | plain s | single s => s.length
  | double s => s.length

def isBroken : Style → Bool
  | plain s | single s => s.any isBreak
  | double s => s.any (·.passes isBreak)

inductive Run where
  | spaces (count : Nat)
  | breaks (cs : List Char)
  | word (cs : List Char)

def addChar (c : Char) (rs : List Run) : List Run :=
  if c = ' ' then
    match rs with
    | .spaces n :: rs => .spaces (n + 1) :: rs
    | rs => .spaces 1 :: rs
  else if isBreak c then
    match rs with
    | .breaks cs :: rs => .breaks (c :: cs) :: rs
    | rs => .breaks [c] :: rs
  else
    match rs with
    | .word cs :: rs => .word (c :: cs) :: rs
    | rs => .word [c] :: rs

def runs (s : List Char) : List Run := s.foldr addChar []

def pad (n : Nat) : List Char := List.replicate n ' '

def newLine (indent : Nat) : List Char := '\n' :: pad indent

/-- Breaks as they read back: a line feed in front of the others is the end of the line. -/
def writtenBreaks (cs : List Char) : List Char :=
  if cs.head? = some '\n' then '\n' :: cs else cs

/-- The runs of a text from a column on. A single blank inside the text may be the place where a
long line is folded; other lines start at the indent. -/
def fold (split : Bool) (indent : Nat) (written : List Char → List Char) :
    Bool → Nat → List Run → List Char
  | _, _, [] => []
  | first, column, .spaces n :: rs =>
    if n = 1 && lineWidth < column && split && !first && !rs.isEmpty then
      newLine indent ++ fold split indent written false indent rs
    else pad n ++ fold split indent written false (column + n) rs
  | _, _, .breaks cs :: rs =>
    writtenBreaks cs ++ pad indent ++ fold split indent written false indent rs
  | _, column, .word cs :: rs =>
    written cs ++ fold split indent written false (column + (written cs).length) rs

def doubleQuotes (cs : List Char) : List Char :=
  cs.flatMap fun c => if c = '\x27' then ['\x27', '\x27'] else [c]

def letters : List (Nat × Char) :=
  [(0x0, '0'), (0x7, 'a'), (0x8, 'b'), (0x9, 't'), (0xA, 'n'), (0xB, 'v'), (0xC, 'f'), (0xD, 'r'),
    (0x1B, 'e'), (0x22, '"'), (0x5C, '\\'), (0x85, 'N'), (0xA0, '_'), (0x2028, 'L'), (0x2029, 'P')]

def upperHex (width n : Nat) : List Char :=
  (Text.padStart width '0' (Text.inBase 16 n)).map Char.toUpper

def escape (c : Code) : List Char :=
  match letters.find? (·.1 = c.toNat) with
  | some (_, l) => ['\\', l]
  | none =>
    if c.toNat ≤ 0xFF then '\\' :: 'x' :: upperHex 2 c.toNat
    else if c.toNat ≤ 0xFFFF then '\\' :: 'u' :: upperHex 4 c.toNat
    else '\\' :: 'U' :: upperHex 8 c.toNat

def isLiteral (unicode : Bool) (c : Char) : Bool :=
  let n := c.toNat
  (isAscii c && c ≠ '"' && c ≠ '\\') ||
    (unicode && ((0xA0 ≤ n && n ≤ 0xD7FF) || (0xE000 ≤ n && n ≤ 0xFFFD)) && n ≠ 0x2028 &&
      n ≠ 0x2029 && n ≠ 0xFEFF)

def literal? (unicode : Bool) : Code → Option Char
  | .char c => if isLiteral unicode c then some c else none
  | .half _ => none

/-- The text between double quotes from a column on. A fold ends the line with a backslash, and
another one keeps a blank at the start of the next line. -/
def escaped (unicode split : Bool) (indent : Nat) : Bool → Bool → Nat → Text → List Char
  | _, _, _, [] => []
  | first, afterEscape, column, c :: s =>
    let mayFold := split && !first && !s.isEmpty
    match literal? unicode c with
    | some x =>
      if mayFold && (x = ' ' || afterEscape) && lineWidth < column then
        let kept := if x = ' ' then ['\\'] else []
        '\\' :: newLine indent ++ kept ++ x ::
          escaped unicode split indent false false (indent + kept.length + 1) s
      else x :: escaped unicode split indent false false (column + 1) s
    | none =>
      let column := column + (escape c).length
      if mayFold && lineWidth + 1 < column then
        let kept := if s.head? = some (.char ' ') then ['\\'] else []
        escape c ++ '\\' :: newLine indent ++ kept ++
          escaped unicode split indent false true (indent + kept.length) s
      else escape c ++ escaped unicode split indent false true column s

def write (unicode split : Bool) (column indent : Nat) : Style → List Char
  | plain s => fold split indent id true column (runs s)
  | single s =>
    '\x27' :: fold split indent doubleQuotes true (column + 1) (runs s) ++ ['\x27']
  | double s => '"' :: escaped unicode split indent true false (column + 1) s ++ ['"']

end Style
end SymbolRename.Yaml
