import SymbolRename.Toml.Quoted
import SymbolRename.Toml.Table

/-!
# Reading TOML

A document is read statement by statement: a key with its value, the header of a table, or that of
one more table of an array. The first fault ends the reading.
-/

set_option autoImplicit false

namespace SymbolRename.Toml

def skipFiller : Nat → List Char → Except Fault (List Char)
  | 0, s => .ok s
  | fuel + 1, s =>
    match s with
    | '#' :: _ => do skipFiller fuel (← skipComment s)
    | c :: r => if isBlankChar c || c = '\n' then skipFiller fuel r else .ok s
    | [] => .ok s

def wordValue? (s : List Char) : Option (Value × List Char) :=
  ("true".toList.isPrefixOf? s).map (fun rest => (.bool true, rest)) |>.or
    (("false".toList.isPrefixOf? s).map fun rest => (.bool false, rest))

def isCollection : Value → Bool
  | .list _ => true
  | .dict _ => true
  | _ => false

/-- What arrays and tables in a line may weigh that stand one inside another. -/
def nesting : Nat := 988

def arrayWeight : Nat := 2

def tableWeight : Nat := 3

def deeper (weight left : Nat) : Except Fault Nat :=
  if left < weight then .error .tooDeep else .ok (left - weight)

mutual

/-- A value at the start of a text. The first argument bounds twice the length, as an array opens
with two steps; the second is the weight of the collections that may still be opened. -/
def takeValue : Nat → Nat → List Char → Except Fault (Value × List Char)
  | 0, _, _ => .error .malformed
  | fuel + 1, left, s =>
    match s with
    | '"' :: _ => (takeText s).map fun (t, rest) => (.text t, rest)
    | '\x27' :: _ => (takeText s).map fun (t, rest) => (.text t, rest)
    | '[' :: s => do
      let (items, rest) ← takeItems fuel (← deeper arrayWeight left) s
      return (.list items, rest)
    | '\x7b' :: s => do
      let left ← deeper tableWeight left
      match skipBlanks s with
      | '\x7d' :: rest => return (.dict [], rest)
      | s =>
        let (t, rest) ← takeInline fuel left [] [] s
        return (.dict t, rest)
    | s =>
      match wordValue? s with
      | some found => .ok found
      | none => match takeMoment? s with
        | some taken => taken
        | none => match takeMarked? s with
          | some found => .ok found
          | none => match takeFloatWord? s with
            | some found => .ok found
            | none => takeDecimal s

def takeItems : Nat → Nat → List Char → Except Fault (List Value × List Char)
  | 0, _, _ => .error .malformed
  | fuel + 1, left, s => do
    match ← skipFiller s.length s with
    | ']' :: rest => return ([], rest)
    | s =>
      let (v, rest) ← takeValue fuel left s
      match ← skipFiller rest.length rest with
      | ']' :: rest => return ([v], rest)
      | ',' :: rest =>
        let (vs, rest) ← takeItems fuel left rest
        return (v :: vs, rest)
      | _ => throw .malformed

def takeInline : Nat → Nat → Table → Seals → List Char → Except Fault (Table × List Char)
  | 0, _, _, _, _ => .error .malformed
  | fuel + 1, left, t, seals, s => do
    let (key, rest) ← takeKey s.length s
    let '=' :: rest := rest | throw .malformed
    let (v, rest) ← takeValue fuel left (skipBlanks rest)
    if isFrozen key seals then throw .malformed
    let some t := updateAt false (addNew (key.getLast?.getD []) v) key.dropLast t
      | throw .malformed
    match skipBlanks rest with
    | '\x7d' :: rest => return (t, rest)
    | ',' :: rest =>
      takeInline fuel left t (if isCollection v then (key, .frozen) :: seals else seals)
        (skipBlanks rest)
    | _ => throw .malformed

end

/-- What has been read so far. The seals that dotted keys set count from the next header on. -/
structure Document where
  table : Table
  seals : Seals
  pending : Seals
  header : List Text

namespace Document

def empty : Document := ⟨[], [], [], []⟩

def settle (d : Document) : Document := { d with seals := d.pending ++ d.seals, pending := [] }

/-- The proper beginnings of a key, shortest first. -/
def beginnings (key : List Text) : List (List Text) :=
  (List.range (key.length - 1)).map fun n => key.take (n + 1)

def addValue (d : Document) (key : List Text) (v : Value) : Option Document :=
  let above := d.header ++ key.dropLast
  let dotted := (beginnings key).map (d.header ++ ·)
  if dotted.any (isOpened · d.seals) || isFrozen above d.seals then none
  else do
    let table ← updateAt true (addNew (key.getLast?.getD []) v) above d.table
    let seals := if isCollection v then (d.header ++ key, .frozen) :: d.seals else d.seals
    some { d with table, seals, pending := dotted.map (·, .opened) ++ d.pending }

def openTable (d : Document) (key : List Text) : Option Document := do
  if isOpened key d.seals || isFrozen key d.seals then none
  let table ← updateAt true some key d.table
  some { d with table, seals := (key, .opened) :: d.seals, header := key }

def openItem (d : Document) (key : List Text) : Option Document := do
  if isFrozen key d.seals then none
  let table ← updateAt true (addTable (key.getLast?.getD [])) key.dropLast d.table
  some { d with table, seals := (key, .opened) :: reopen key d.seals, header := key }

end Document

def orMalformed {α : Type} : Option α → Except Fault α
  | some a => .ok a
  | none => .error .malformed

def takeStatement (d : Document) (s : List Char) : Except Fault (Document × List Char) := do
  match s with
  | '[' :: '[' :: s =>
    let (key, rest) ← takeKey s.length (skipBlanks s)
    let d ← orMalformed (d.settle.openItem key)
    let ']' :: ']' :: rest := rest | throw .malformed
    return (d, rest)
  | '[' :: s =>
    let (key, rest) ← takeKey s.length (skipBlanks s)
    let d ← orMalformed (d.settle.openTable key)
    let ']' :: rest := rest | throw .malformed
    return (d, rest)
  | s =>
    let (key, rest) ← takeKey s.length s
    let '=' :: rest := rest | throw .malformed
    let (v, rest) ← takeValue (2 * rest.length + 2) nesting (skipBlanks rest)
    return (← orMalformed (d.addValue key v), rest)

/-- Statements up to the end of a text; the first argument bounds their number. -/
def readFrom : Nat → Document → List Char → Except Fault Table
  | 0, d, _ => .ok d.table
  | fuel + 1, d, s => do
    match skipBlanks s with
    | [] => return d.table
    | '\n' :: rest => readFrom fuel d rest
    | s =>
      let (d, rest) ← if s.head? = some '#' then pure (d, s) else takeStatement d s
      match ← skipComment (skipBlanks rest) with
      | [] => return d.table
      | '\n' :: rest => readFrom fuel d rest
      | _ => throw .malformed

/-- A carriage return before a line feed is no part of the document. -/
def dropReturns : List Char → List Char
  | '\r' :: '\n' :: s => '\n' :: dropReturns s
  | c :: s => c :: dropReturns s
  | [] => []

def read (s : List Char) : Except Fault Table := readFrom (s.length + 1) .empty (dropReturns s)

end SymbolRename.Toml
