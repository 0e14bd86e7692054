import SymbolRename.Yaml.Supply

/-!
# Tokens of YAML

The marks of structure that a text is cut into. Where a collection is shown by indentation alone,
its start and end have tokens of their own. Tokens are cut at a cursor, which moves over the supply
of characters; where the supply is at fault, looking further is that fault.
-/

set_option autoImplicit false

namespace SymbolRename.Yaml

inductive Directive where
  | version (major : Nat)
  | tag (handle lead : String)
  | other

inductive Token where
  | directive (d : Directive)
  | documentStart
  | documentEnd
  | sequenceStart
  | mappingStart
  | blockEnd
  | flowSequenceStart
  | flowSequenceEnd
  | flowMappingStart
  | flowMappingEnd
  | flowEntry
  | blockEntry
  | key
  | value
  | alias (name : String)
  | anchor (name : String)
  | tag (handle : Option String) (suffix : String)
  | scalar (text : Text) (plain : Bool)
  /-- The text cannot be cut into tokens from here on. -/
  | broken (f : Fault)

def isBreak (c : Char) : Bool :=
  c = '\n' || c.toNat = 0x85 || c.toNat = 0x2028 || c.toNat = 0x2029

def isBlank (c : Char) : Bool := c = ' ' || c = '\t'

/-- What ends a word: the end of the text, a blank or a break. -/
def endsWord (c : Option Char) : Bool := c.all fun c => isBlank c || isBreak c

def endsLine (c : Option Char) : Bool := c.all isBreak

/-- What ends a word that no tab ends. -/
def endsField (c : Option Char) : Bool := c.all fun c => c = ' ' || isBreak c

/-- A place in a text, with its line and column, and what is at fault where the characters end. A
byte order mark takes no column. -/
structure Cursor where
  rest : List Char
  ending : Option Fault
  /-- The number of characters in all. -/
  total : Nat
  index : Nat
  line : Nat
  column : Nat

abbrev Scan := StateT Cursor (Except Fault)

namespace Cursor

def start (s : Supply) : Cursor := ⟨s.chars, s.ending, s.chars.length, 0, 0, 0⟩

def next (c : Cursor) : Cursor :=
  match c.rest with
  | [] => c
  | x :: rest =>
    if isBreak x then
      { c with rest := rest, index := c.index + 1, line := c.line + 1, column := 0 }
    else
      let column := if x.toNat = 0xFEFF then c.column else c.column + 1
      { c with rest := rest, index := c.index + 1, column := column }

def skip : Nat → Cursor → Cursor
  | 0, c => c
  | n + 1, c => skip n c.next

def check (rest : List Char) (c : Cursor) : Except Fault Unit :=
  match rest, c.ending with
  | [], some f => .error f
  | _, _ => .ok ()

end Cursor

namespace Scan

def peekAt (n : Nat) : Scan (Option Char) := do
  let c ← get
  let rest := c.rest.drop n
  c.check rest
  return rest.head?

def peek : Scan (Option Char) := peekAt 0

def lookahead (n : Nat) : Scan (List Char) := do
  let c ← get
  c.check (c.rest.drop (n - 1))
  return c.rest.take n

/-- Moves on; the character at the new place must be there, or the end of the text. -/
def skip (n : Nat) : Scan Unit := do
  modify (·.skip n)
  let c ← get
  c.check c.rest

def next : Scan Unit := skip 1

def run (p : Char → Bool) : Scan (List Char) := do
  let taken := (← get).rest.takeWhile p
  skip taken.length
  return taken

def pass (p : Char → Bool) : Scan Unit := do
  let _ ← run p

/-- A line break, as it counts in a text; nothing if there is none. -/
def takeBreak : Scan (List Char) := do
  match ← peek with
  | some x =>
    if isBreak x then
      next
      return [if x.toNat = 0x85 then '\n' else x]
    else return []
  | none => return []

/-- Three characters of a kind that make up a word at this place. -/
def atMarker (x : Char) : Scan Bool := do
  if (← lookahead 3) = [x, x, x] then return endsWord (← peekAt 3) else return false

def atDocumentMark : Scan Bool := do
  if ← atMarker '-' then return true else atMarker '.'

def fail {α : Type} : Scan α := throw .unreadable

/-- How many characters there may be from here on; enough to bound any work. -/
def bound : Scan Nat := do
  let c ← get
  return c.total + 1 - c.index

end Scan
end SymbolRename.Yaml
