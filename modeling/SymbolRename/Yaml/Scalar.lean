import SymbolRename.Text.Numeral
import SymbolRename.Yaml.Token

/-!
# Scalars of YAML in a text

The five ways to write a scalar: plain, in single or double quotes, and as a literal or folded
block. In the first three a line break stands for a blank, and further breaks for themselves; a
block takes its lines as they are below its indent.
-/

set_option autoImplicit false

namespace SymbolRename.Yaml
open Text Scan

/-- Breaks and the blanks before each of them, in quotes. The first argument bounds their number. -/
def quotedBreaks : Nat → Scan (List Char)
  | 0 => return []
  | fuel + 1 => do
    if ← atDocumentMark then fail
    pass isBlank
    match ← takeBreak with
    | [] => return []
    | b => return b ++ (← quotedBreaks fuel)

/-- A break and the breaks after it: one line feed alone becomes a blank. -/
def foldBreaks (first more : List Char) : List Char :=
  if first ≠ ['\n'] then first ++ more else if more.isEmpty then [' '] else more

/-- Blanks in quotes; those around a line break are dropped. -/
def quotedSpace : Scan (List Char) := do
  let blanks ← run isBlank
  if (← peek).isNone then fail
  match ← takeBreak with
  | [] => return blanks
  | b => return foldBreaks b (← quotedBreaks (← bound))

def escape? : Char → Option Nat
  | '0' => some 0
  | 'a' => some 7
  | 'b' => some 8
  | 't' => some 9
  | '\t' => some 9
  | 'n' => some 10
  | 'v' => some 11
  | 'f' => some 12
  | 'r' => some 13
  | 'e' => some 27
  | ' ' => some 0x20
  | '"' => some 0x22
  | '\\' => some 0x5C
  | '/' => some 0x2F
  | 'N' => some 0x85
  | '_' => some 0xA0
  | 'L' => some 0x2028
  | 'P' => some 0x2029
  | _ => none

def codeWidth? : Char → Option Nat
  | 'x' => some 2
  | 'u' => some 4
  | 'U' => some 8
  | _ => none

/-- The code point of a number. Surrogates are code points, one by one. -/
def codePoint (n : Nat) : Except Fault Code :=
  if n < 0x110000 then .ok (.ofNat n)
  else if n < 0x80000000 then .error .beyondCharacters
  else .error .beyondWord

/-- Hexadecimal digits, as many as asked for, at places from the given one on; the cursor stays. -/
def digitsAt (place : Nat) : Nat → Scan (List Char)
  | 0 => return []
  | count + 1 => do
    match ← peekAt place with
    | some c => if isHexDigit c then return c :: (← digitsAt (place + 1) count) else fail
    | none => fail

def quotedEscape : Scan Text := do
  let some x ← peek | fail
  match escape? x, codeWidth? x with
  | some n, _ =>
    next
    return [.ofNat n]
  | none, some width =>
    next
    let c ← codePoint (digitsValue 16 (← digitsAt 0 width))
    skip width
    return [c]
  | none, none =>
    match ← takeBreak with
    | [] => fail
    | _ => return ofChars (← quotedBreaks (← bound))

def isQuotedPlain (x : Char) : Bool := !(isBlank x || isBreak x || "\x27\"\\".toList.contains x)

/-- A scalar after its opening quote; the last argument bounds its pieces. -/
def quotedScalar (double : Bool) : Nat → Scan Text
  | 0 => fail
  | fuel + 1 => do
    let some x ← peek | fail
    if isBlank x || isBreak x then
      let s ← quotedSpace
      return ofChars s ++ (← quotedScalar double fuel)
    else if double && x = '"' then
      next
      return []
    else if double && x = '\\' then
      next
      let s ← quotedEscape
      return s ++ (← quotedScalar double fuel)
    else if !double && x = '\x27' then
      if (← peekAt 1) = some '\x27' then
        skip 2
        return '\x27' :: (← quotedScalar double fuel)
      else
        next
        return []
    else if isQuotedPlain x then
      let s ← run isQuotedPlain
      return ofChars s ++ (← quotedScalar double fuel)
    else
      next
      return x :: (← quotedScalar double fuel)

/-- Whether a word of a plain scalar ends with a colon before the given character. -/
def colonEnds (inFlow : Bool) (after : Option Char) : Bool :=
  endsWord after || (inFlow && after.any (",[]\x7b\x7d".toList.contains ·))

/-- How many of the characters belong to the word of a plain scalar that they start with, counted
on from the first argument but one. -/
def plainLength (inFlow : Bool) (c : Cursor) : Nat → List Char → Except Fault Nat
  | n, [] => do
    c.check []
    return n
  | n, x :: rest => do
    if isBlank x || isBreak x || (inFlow && ",?[]\x7b\x7d".toList.contains x) then return n
    if x = ':' then
      c.check rest
      if colonEnds inFlow rest.head? then return n
    plainLength inFlow c (n + 1) rest

/-- The word of a plain scalar that comes next; empty if none does. -/
def plainWord (inFlow : Bool) : Scan (List Char) := do
  let c ← get
  let n ← plainLength inFlow c 0 c.rest
  skip n
  return c.rest.take n

/-- Breaks and blanks between the words of a plain scalar; nothing at the edge of a document. -/
def plainBreaks : Nat → Scan (Option (List Char))
  | 0 => return some []
  | fuel + 1 => do
    pass (· = ' ')
    match ← takeBreak with
    | [] => return some []
    | b =>
      if ← atDocumentMark then return none
      return (← plainBreaks fuel).map (b ++ ·)

/-- What stands between two runs of a plain scalar, and whether a line has ended. -/
def plainSpace : Scan (List Char × Bool) := do
  let blanks ← run (· = ' ')
  match ← takeBreak with
  | [] => return (blanks, false)
  | b =>
    if ← atDocumentMark then return ([], true)
    match ← plainBreaks (← bound) with
    | none => return ([], true)
    | some bs => return (foldBreaks b bs, true)

/-- A plain scalar, with what stands before its next run. Outside of flow collections its lines
must be indented by at least `indent`. The text comes with whether a line has ended after it. -/
def plainScalar (inFlow : Bool) (indent : Nat) : Nat → List Char → Bool → Scan (List Char × Bool)
  | 0, _, broken => return ([], broken)
  | fuel + 1, before, broken => do
    if (← peek) = some '#' then return ([], broken)
    let text ← plainWord inFlow
    if text.isEmpty then return ([], broken)
    let (space, ended) ← plainSpace
    if space.isEmpty || (← peek) = some '#' || (!inFlow && (← get).column < indent) then
      return (before ++ text, ended)
    else
      let (more, ended) ← plainScalar inFlow indent fuel space ended
      return (before ++ text ++ more, ended)

/-- Blanks up to a column; the last argument bounds their number. -/
def passIndent (indent : Nat) : Nat → Scan Unit
  | 0 => return ()
  | fuel + 1 => do
    if (← get).column < indent && (← peek) = some ' ' then
      next
      passIndent indent fuel

def blockBreaks (indent : Nat) : Nat → Scan (List Char)
  | 0 => return []
  | fuel + 1 => do
    passIndent indent indent
    match ← takeBreak with
    | [] => return []
    | b => return b ++ (← blockBreaks indent fuel)

/-- Breaks and blanks before the first line of a block, with the widest indent among them. -/
def blockIndent : Nat → Nat → Scan (List Char × Nat)
  | 0, widest => return ([], widest)
  | fuel + 1, widest => do
    if (← peek) = some ' ' then
      next
      blockIndent fuel (max widest (← get).column)
    else match ← takeBreak with
      | [] => return ([], widest)
      | b =>
        let (bs, widest) ← blockIndent fuel widest
        return (b ++ bs, widest)

def insideBlock (indent : Nat) : Scan Bool := do
  if (← get).column = indent then return (← peek).isSome else return false

/-- The lines of a block: their text, the break after the last one, and the breaks after that. -/
def blockLines (folded : Bool) (indent : Nat) :
    Nat → List Char → Scan (List Char × List Char × List Char)
  | 0, breaks => return ([], [], breaks)
  | fuel + 1, breaks => do
    if !(← insideBlock indent) then return ([], [], breaks)
    let startsText := !(← peek).any isBlank
    let line ← run (!isBreak ·)
    let b ← takeBreak
    let bs ← blockBreaks indent (← bound)
    if ← insideBlock indent then
      let joint :=
        if folded && b = ['\n'] && startsText && !(← peek).any isBlank then
          (if bs.isEmpty then [' '] else [])
        else b
      let (more, last, final) ← blockLines folded indent fuel bs
      return (breaks ++ line ++ joint ++ more, last, final)
    else return (breaks ++ line, b, bs)

/-- What becomes of the breaks at the end of a block: none stays, one stays, or all. -/
inductive Chomping where
  | strip
  | clip
  | keep
deriving DecidableEq

def chomping? : Scan (Option Chomping) := do
  match ← peek with
  | some '+' =>
    next
    return some .keep
  | some '-' =>
    next
    return some .strip
  | _ => return none

def givenIndent : Scan (Option Nat) := do
  match ← peek with
  | some x =>
    if x.isDigit then
      if x = '0' then fail
      next
      return some (digitValue x)
    else return none
  | none => return none

def blockHeader : Scan (Chomping × Option Nat) := do
  match ← chomping? with
  | some chomping => return (chomping, ← givenIndent)
  | none =>
    match ← givenIndent with
    | some indent => return ((← chomping?).getD .clip, some indent)
    | none => return (.clip, none)

def endOfLine : Scan Unit := do
  pass (· = ' ')
  if (← peek) = some '#' then pass (!isBreak ·)
  if !endsLine (← peek) then fail
  let _ ← takeBreak

/-- A block from its sign on; `outer` is the indent of the collection that it stands in. -/
def blockScalar (folded : Bool) (outer : Int) : Scan (List Char) := do
  next
  let (chomping, indent) ← blockHeader
  if !endsField (← peek) then fail
  endOfLine
  let least := max 1 (outer + 1).toNat
  let (indent, breaks) ← match indent with
    | some n => do
      let indent := least + n - 1
      pure (indent, ← blockBreaks indent (← bound))
    | none => do
      let (breaks, widest) ← blockIndent (← bound) 0
      pure (max least widest, breaks)
  let (text, last, final) ← blockLines folded indent (← bound) breaks
  return text ++ match chomping with
    | .strip => []
    | .clip => last
    | .keep => last ++ final

end SymbolRename.Yaml
