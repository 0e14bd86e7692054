import SymbolRename.Toml.Scalar

/-!
# Texts and keys of TOML

Texts in double quotes know escapes, those in single quotes do not; three quotes let a text run over
lines, and one or two more before the closing ones belong to it. A key is a row of parts between
dots, each a bare word or a text on one line.
-/

set_option autoImplicit false

namespace SymbolRename.Toml
open Text

def isBlankChar (c : Char) : Bool := c = ' ' || c = '\t'

def skipBlanks (s : List Char) : List Char := s.dropWhile isBlankChar

def isControl (c : Char) : Bool := c.toNat < 0x20 || c.toNat = 0x7F

/-- Controls that no text, and no comment, may hold; lines may break in texts that run over them. -/
def isForbidden (multiline : Bool) (c : Char) : Bool :=
  isControl c && c ≠ '\t' && !(multiline && c = '\n')

def escape? : Char → Option Char
  | 'b' => some '\x08'
  | 't' => some '\t'
  | 'n' => some '\n'
  | 'f' => some '\x0c'
  | 'r' => some '\r'
  | '"' => some '"'
  | '\\' => some '\\'
  | _ => none

/-- The character of a code, if it is no surrogate and not beyond the last one. -/
def scalar? (digits : List Char) : Option Char :=
  let n := digitsValue 16 digits
  if digits.all isHexDigit && (n < 0xD800 || (0xE000 ≤ n && n < 0x110000)) then
    some (Char.ofNat n)
  else none

/-- What the reader of a text in double quotes passes over: nothing, the blanks between a backslash
and the end of its line, or everything blank after that. -/
inductive Skipping where
  | nothing
  | lineEnd
  | blanks
deriving DecidableEq

def takeBasic (multiline : Bool) : Skipping → List Char → Except Fault (List Char × List Char)
  | _, [] => .error .malformed
  | .lineEnd, c :: s =>
    if isBlankChar c then takeBasic multiline .lineEnd s
    else if c = '\n' then takeBasic multiline .blanks s
    else .error .malformed
  | skipping, c :: s =>
    let onward := fun (d : Char) (r : Except Fault (List Char × List Char)) =>
      r.map fun (t, rest) => (d :: t, rest)
    if skipping = .blanks && (isBlankChar c || c = '\n') then takeBasic multiline .blanks s
    else if c = '"' then
      if !multiline then .ok ([], s)
      else match s with
        | '"' :: '"' :: rest => .ok ([], rest)
        | s => onward c (takeBasic multiline .nothing s)
    else if c = '\\' then
      match s with
      | 'u' :: a :: b :: c :: d :: s =>
        match scalar? [a, b, c, d] with
        | some x => onward x (takeBasic multiline .nothing s)
        | none => .error .malformed
      | 'U' :: a :: b :: c :: d :: e :: f :: g :: h :: s =>
        match scalar? [a, b, c, d, e, f, g, h] with
        | some x => onward x (takeBasic multiline .nothing s)
        | none => .error .malformed
      | e :: s =>
        if multiline && isBlankChar e then takeBasic multiline .lineEnd s
        else if multiline && e = '\n' then takeBasic multiline .blanks s
        else match escape? e with
          | some x => onward x (takeBasic multiline .nothing s)
          | none => .error .malformed
      | [] => .error .malformed
    else if isForbidden multiline c then .error .malformed
    else onward c (takeBasic multiline .nothing s)

def takeLiteral (multiline : Bool) : List Char → Except Fault (List Char × List Char)
  | [] => .error .malformed
  | c :: s =>
    let onward := (takeLiteral multiline s).map fun (t, rest) => (c :: t, rest)
    if c = '\x27' then
      if !multiline then .ok ([], s)
      else match s with
        | '\x27' :: '\x27' :: rest => .ok ([], rest)
        | _ => onward
    else if isForbidden multiline c then .error .malformed
    else onward

/-- One or two quotes more after the closing ones. -/
def takeExtra (quote : Char) : List Char → List Char × List Char
  | a :: b :: s =>
    if a = quote && b = quote then ([a, b], s)
    else if a = quote then ([a], b :: s)
    else ([], a :: b :: s)
  | [a] => if a = quote then ([a], []) else ([], [a])
  | [] => ([], [])

def dropFeed : List Char → List Char
  | '\n' :: s => s
  | s => s

def takeText : List Char → Except Fault (Text × List Char)
  | '"' :: '"' :: '"' :: s => do
    let (t, rest) ← takeBasic true .nothing (dropFeed s)
    let (extra, rest) := takeExtra '"' rest
    return (ofChars (t ++ extra), rest)
  | '\x27' :: '\x27' :: '\x27' :: s => do
    let (t, rest) ← takeLiteral true (dropFeed s)
    let (extra, rest) := takeExtra '\x27' rest
    return (ofChars (t ++ extra), rest)
  | '"' :: s => (takeBasic false .nothing s).map fun (t, rest) => (ofChars t, rest)
  | '\x27' :: s => (takeLiteral false s).map fun (t, rest) => (ofChars t, rest)
  | _ => .error .malformed

def isBare (c : Char) : Bool := c.isAlphanum || c = '-' || c = '_'

def takeKeyPart : List Char → Except Fault (Text × List Char)
  | '"' :: s => (takeBasic false .nothing s).map fun (t, rest) => (ofChars t, rest)
  | '\x27' :: s => (takeLiteral false s).map fun (t, rest) => (ofChars t, rest)
  | s =>
    let word := s.takeWhile isBare
    if word.isEmpty then .error .malformed else .ok (ofChars word, s.dropWhile isBare)

/-- A key, and what follows it and the blanks after it; the first argument bounds its parts. -/
def takeKey : Nat → List Char → Except Fault (List Text × List Char)
  | 0, _ => .error .malformed
  | fuel + 1, s => do
    let (part, rest) ← takeKeyPart s
    match skipBlanks rest with
    | '.' :: rest =>
      let (parts, rest) ← takeKey fuel (skipBlanks rest)
      return (part :: parts, rest)
    | rest => return ([part], rest)

def skipComment : List Char → Except Fault (List Char)
  | '#' :: s =>
    if (s.takeWhile (· ≠ '\n')).any (isForbidden false) then .error .malformed
    else .ok (s.dropWhile (· ≠ '\n'))
  | s => .ok s

end SymbolRename.Toml
