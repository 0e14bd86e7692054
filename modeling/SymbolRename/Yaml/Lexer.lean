import SymbolRename.Yaml.Scalar

/-!
# Cutting YAML into tokens

Structure shows itself late: that a scalar or collection was a key is known at the colon after it,
and that a mapping began with it, too. The lexer keeps the tokens as they come, and beside them the
places where a key turned out to begin; both are merged at the end. A key that is not announced
stands on one line with its colon, at most 1024 characters before it. While a key may still have
begun with a token, the tokens behind it are cut before it is used, so what is at fault in them is
at fault at that token.
-/

set_option autoImplicit false

namespace SymbolRename.Yaml
open Text Scan

/-- A place where a key may have begun. -/
structure PossibleKey where
  /-- The number of tokens before it. -/
  place : Nat
  /-- The column says that it must be a key. -/
  required : Bool
  index : Nat
  line : Nat
  column : Nat

/-- A key that began before its colon was seen, and whether it opened a mapping. -/
structure KeyMark where
  place : Nat
  opensMapping : Bool

structure Lexer where
  cursor : Cursor
  /-- The tokens so far, the last one first. -/
  tokens : List Token
  count : Nat
  marks : List KeyMark
  /-- The number of flow collections that are open. -/
  flow : Nat
  indent : Int
  indents : List Int
  allowKey : Bool
  /-- The possible key of each depth of flow collections. -/
  keys : List (Nat × PossibleKey)

namespace Lexer

def start (s : Supply) : Lexer := ⟨.start s, [], 0, [], 0, -1, [], true, []⟩

def push (l : Lexer) (t : Token) : Lexer := { l with tokens := t :: l.tokens, count := l.count + 1 }

def scan {α : Type} (l : Lexer) (s : Scan α) : Except Fault (α × Lexer) := do
  let (a, c) ← StateT.run s l.cursor
  return (a, { l with cursor := c })

def skip (l : Lexer) (n : Nat) : Except Fault Lexer := do
  return (← l.scan (Scan.skip n)).2

def inFlow (l : Lexer) : Bool := l.flow ≠ 0

/-- Blanks, a comment and a line end before a token; tells whether there was a line end. -/
def fillerLine : Scan Bool := do
  pass (· = ' ')
  if (← peek) = some '#' then pass (!isBreak ·)
  return !(← takeBreak).isEmpty

def filler : Nat → Scan Bool
  | 0 => return false
  | fuel + 1 => do
    if ← fillerLine then
      let _ ← filler fuel
      return true
    else return false

/-- A byte order mark may stand at the start of the text. -/
def passMark : Scan Unit := do
  if (← get).index = 0 && (← peek) = some (Char.ofNat 0xFEFF) then next

/-- Passes what stands before a token. Outside of flow collections a key may begin on a new line. -/
def toToken (l : Lexer) : Except Fault Lexer := do
  let (newLine, l) ← l.scan do
    passMark
    filler (← bound)
  return { l with allowKey := l.allowKey || (newLine && !l.inFlow) }

def isStale (l : Lexer) (k : PossibleKey) : Bool :=
  k.line ≠ l.cursor.line || k.index + 1024 < l.cursor.index

/-- Forgets possible keys that are too far back; one that had to be a key is a fault. -/
def dropStale (l : Lexer) : Except Fault Lexer :=
  if l.keys.any fun k => l.isStale k.2 && k.2.required then .error .unreadable
  else .ok { l with keys := l.keys.filter fun k => !l.isStale k.2 }

def closeTo (column : Int) : Nat → Lexer → Lexer
  | 0, l => l
  | fuel + 1, l =>
    if !l.inFlow && column < l.indent then
      closeTo column fuel
        { l.push .blockEnd with indent := l.indents.headD (-1), indents := l.indents.tail }
    else l

def unwind (column : Int) (l : Lexer) : Lexer := closeTo column (l.indents.length + 1) l

/-- Opens a collection at a column, if it is indented further than the one around it. -/
def addIndent (l : Lexer) (column : Int) : Bool × Lexer :=
  if l.indent < column then
    (true, { l with indents := l.indent :: l.indents, indent := column })
  else (false, l)

/-- Forgets the possible key of this depth; one that had to be a key is a fault. -/
def removeKey (l : Lexer) : Except Fault Lexer :=
  if l.keys.any fun k => k.1 = l.flow && k.2.required then .error .unreadable
  else .ok { l with keys := l.keys.filter (·.1 ≠ l.flow) }

def saveKey (l : Lexer) : Except Fault Lexer := do
  if !l.allowKey then return l
  let l ← l.removeKey
  let c := l.cursor
  let required := !l.inFlow && l.indent = c.column
  return { l with keys := (l.flow, ⟨l.count, required, c.index, c.line, c.column⟩) :: l.keys }

def edge (l : Lexer) : Except Fault Lexer := do
  let l ← (l.unwind (-1)).removeKey
  return { l with allowKey := false }

def documentMark (l : Lexer) (t : Token) : Except Fault Lexer := do
  return (← (← l.edge).skip 3).push t

def openFlow (l : Lexer) (t : Token) : Except Fault Lexer := do
  let l ← (← l.saveKey).skip 1
  return { l.push t with flow := l.flow + 1, allowKey := true }

def closeFlow (l : Lexer) (t : Token) : Except Fault Lexer := do
  let l ← l.removeKey
  if l.flow = 0 then throw .unreadable
  let l ← l.skip 1
  return { l.push t with flow := l.flow - 1, allowKey := false }

def flowEntry (l : Lexer) : Except Fault Lexer := do
  let l ← (← l.removeKey).skip 1
  return { l.push .flowEntry with allowKey := true }

def openBlock (l : Lexer) (t : Token) : Except Fault Lexer :=
  if l.inFlow then .ok l
  else if !l.allowKey then .error .unreadable
  else match l.addIndent l.cursor.column with
    | (true, l) => .ok (l.push t)
    | (false, l) => .ok l

def blockEntry (l : Lexer) : Except Fault Lexer := do
  let l ← (← (← l.openBlock .sequenceStart).removeKey).skip 1
  return { l.push .blockEntry with allowKey := true }

def announcedKey (l : Lexer) : Except Fault Lexer := do
  let l ← (← (← l.openBlock .mappingStart).removeKey).skip 1
  return { l.push .key with allowKey := !l.inFlow }

def value (l : Lexer) : Except Fault Lexer := do
  match l.keys.find? (·.1 = l.flow) with
  | some (_, k) =>
    let l := { l with keys := l.keys.filter (·.1 ≠ l.flow) }
    let (opens, l) := if l.inFlow then (false, l) else l.addIndent k.column
    let l ← { l with marks := ⟨k.place, opens⟩ :: l.marks, allowKey := false }.skip 1
    return l.push .value
  | none =>
    let l ← (← (← l.openBlock .mappingStart).removeKey).skip 1
    return { l.push .value with allowKey := !l.inFlow }

def isWordChar (c : Char) : Bool := c.isAlphanum || c = '-' || c = '_'

def nameOf : Scan String := do
  next
  let name ← run isWordChar
  let ends := fun (c : Option Char) => endsWord c || c.any ("?:,]\x7d%@\x60".toList.contains ·)
  if name.isEmpty || !ends (← peek) then fail
  return String.ofList name

/-- A token that may begin a key and is no key by itself. -/
def nodeToken (l : Lexer) (read : Scan Token) : Except Fault Lexer := do
  let (t, l) ← (← l.saveKey).scan read
  return { l.push t with allowKey := false }

def isUriChar (c : Char) : Bool :=
  c.isAlphanum || "-;/?:@&=+$,_.!~*\x27()[]".toList.contains c

def percentBytes : Nat → Scan (List UInt8)
  | 0 => return []
  | fuel + 1 => do
    if (← peek) ≠ some '%' then return []
    next
    let n := digitsValue 16 (← digitsAt 0 2)
    Scan.skip 2
    return n.toUInt8 :: (← percentBytes fuel)

def uriText : Nat → Scan (List Char)
  | 0 => return []
  | fuel + 1 => do
    let plain ← run isUriChar
    if (← peek) = some '%' then
      match Utf8.decode (← percentBytes (← bound)) with
      | .ok s => return plain ++ s ++ (← uriText fuel)
      | .error _ => fail
    else return plain

def uri : Scan String := do
  let s ← uriText (← bound)
  if s.isEmpty then fail
  return String.ofList s

def handle : Scan String := do
  if (← peek) ≠ some '!' then fail
  if (← peekAt 1) = some ' ' then
    next
    return "!"
  next
  let word ← run isWordChar
  if (← peek) ≠ some '!' then fail
  next
  return String.ofList ('!' :: word ++ ['!'])

/-- The rest of a word holds an exclamation mark, so the word starts with a handle. -/
def hasHandle (place : Nat) : Nat → Scan Bool
  | 0 => return false
  | fuel + 1 => do
    match ← peekAt place with
    | none => return false
    | some x =>
      if x = '!' then return true
      else if x = ' ' || isBreak x then return false
      else hasHandle (place + 1) fuel

/-- The handle of a tag; where none is written, it is the lone mark. -/
def tagHandle : Scan String := do
  if ← hasHandle 1 (← bound) then handle
  else
    next
    return "!"

def tag : Scan Token := do
  let after ← peekAt 1
  let t ←
    if after = some '<' then
      Scan.skip 2
      let suffix ← uri
      if (← peek) ≠ some '>' then fail
      next
      pure (Token.tag none suffix)
    else if endsWord after then
      next
      pure (Token.tag none "!")
    else
      let h ← tagHandle
      pure (Token.tag (some h) (← uri))
  if !endsField (← peek) then fail
  return t

def digitLimit : Nat := 4300

def versionPart : Scan Nat := do
  let digits ← run Char.isDigit
  if digits.isEmpty then fail
  if digitLimit < digits.length then throw .noNumber
  return digitsValue 10 digits

def directiveBody (name : List Char) : Scan Directive := do
  if name = "YAML".toList then
    pass (· = ' ')
    let major ← versionPart
    if (← peek) ≠ some '.' then fail
    next
    let _ ← versionPart
    if !endsField (← peek) then fail
    return .version major
  else if name = "TAG".toList then
    pass (· = ' ')
    let h ← handle
    if (← peek) ≠ some ' ' then fail
    pass (· = ' ')
    let lead ← uri
    if !endsField (← peek) then fail
    return .tag h lead
  else
    pass (!isBreak ·)
    return .other

def directiveLine : Scan Directive := do
  next
  let name ← run isWordChar
  if name.isEmpty || !endsField (← peek) then fail
  let d ← directiveBody name
  endOfLine
  return d

def directive (l : Lexer) : Except Fault Lexer := do
  let (d, l) ← (← l.edge).scan directiveLine
  return l.push (.directive d)

def block (l : Lexer) (folded : Bool) : Except Fault Lexer := do
  let l ← { l with allowKey := true }.removeKey
  let (s, l) ← l.scan (blockScalar folded l.indent)
  return l.push (.scalar (Text.ofChars s) false)

def quoted (l : Lexer) (double : Bool) : Except Fault Lexer :=
  l.nodeToken do
    next
    return .scalar (← quotedScalar double (← bound)) false

def plain (l : Lexer) : Except Fault Lexer := do
  let l ← l.saveKey
  let ((s, ended), l) ← l.scan do
    plainScalar l.inFlow (l.indent + 1).toNat (← bound) [] false
  return { l.push (.scalar (Text.ofChars s) true) with allowKey := ended }

/-- Whether a plain scalar may begin with a character that is no sign, whatever follows. -/
def startsPlain (x : Char) : Bool :=
  !(isBlank x || isBreak x || "-?:,[]\x7b\x7d#&*!|>\x27\"%@\x60".toList.contains x)

/-- Whether a plain scalar may begin with a sign before something else than the end of a word. -/
def mayStartPlain (inFlow : Bool) (x : Char) : Bool :=
  x = '-' || (!inFlow && (x = '?' || x = ':'))

def signToken (l : Lexer) (x : Char) : Except Fault Lexer := do
  if x ≠ '-' && l.inFlow then
    if x = '?' then l.announcedKey else l.value
  else
    let (after, l) ← l.scan (peekAt 1)
    if endsWord after then
      if x = '-' then l.blockEntry else if x = '?' then l.announcedKey else l.value
    else if mayStartPlain l.inFlow x then l.plain
    else throw .unreadable

/-- The marks at the start of a line that are no part of any document. -/
def marginToken? (l : Lexer) (x : Char) : Except Fault (Option Lexer) := do
  if l.cursor.column ≠ 0 then return none
  if x = '%' then return some (← l.directive)
  let (marked, l) ← l.scan (if x = '-' || x = '.' then atMarker x else return false)
  if marked then
    return some (← l.documentMark (if x = '-' then .documentStart else .documentEnd))
  return none

def token (l : Lexer) (x : Char) : Except Fault Lexer := do
  if let some l := ← l.marginToken? x then return l
  if x = '[' then l.openFlow .flowSequenceStart
  else if x = '\x7b' then l.openFlow .flowMappingStart
  else if x = ']' then l.closeFlow .flowSequenceEnd
  else if x = '\x7d' then l.closeFlow .flowMappingEnd
  else if x = ',' then l.flowEntry
  else if x = '-' || x = '?' || x = ':' then l.signToken x
  else if x = '*' then l.nodeToken do return .alias (← nameOf)
  else if x = '&' then l.nodeToken do return .anchor (← nameOf)
  else if x = '!' then l.nodeToken tag
  else if x = '|' && !l.inFlow then l.block false
  else if x = '>' && !l.inFlow then l.block true
  else if x = '\x27' then l.quoted false
  else if x = '"' then l.quoted true
  else if startsPlain x then l.plain
  else throw .unreadable

/-- The tokens up to the next one, or to the end of the text; tells whether that is reached. -/
def step (l : Lexer) : Except Fault (Bool × Lexer) := do
  let l ← (← (← l.dropStale).toToken).dropStale
  let l := l.unwind l.cursor.column
  let (x, l) ← l.scan peek
  match x with
  | none => return (true, ← (l.unwind (-1)).removeKey)
  | some x => return (false, ← l.token x)

/-- The first token that cannot be used before the next one is cut. -/
def firstPending (l : Lexer) : Nat :=
  match l.dropStale with
  | .ok l => (l.keys.map (·.2.place)).foldl min l.count
  | .error _ => l.count

/-- Puts a fault in the place of the tokens that cannot be used because of it. -/
def breakOff (l : Lexer) (f : Fault) : Lexer :=
  let usable := l.firstPending
  let l := { l with tokens := l.tokens.drop (l.count - usable), count := usable }
  l.push (.broken f)

/-- Reads tokens to the end of the text; a fault becomes the last token. -/
def run : Nat → Lexer → Lexer
  | 0, l => l.push (.broken .unreadable)
  | fuel + 1, l =>
    match l.step with
    | .ok (true, l) => l
    | .ok (false, l) => run fuel l
    | .error f => l.breakOff f

/-- Puts the keys that were seen late before the tokens that they began with. -/
def merge (marks : List KeyMark) : Nat → List Token → List Token
  | _, [] => []
  | n, t :: ts =>
    match marks.find? (·.place = n) with
    | some m =>
      (if m.opensMapping then [.mappingStart, .key] else [.key]) ++ t :: merge marks (n + 1) ts
    | none => t :: merge marks (n + 1) ts

end Lexer

def tokens (s : Supply) : List Token :=
  let l := Lexer.run (s.chars.length + 2) (.start s)
  Lexer.merge l.marks 0 l.tokens.reverse

end SymbolRename.Yaml
