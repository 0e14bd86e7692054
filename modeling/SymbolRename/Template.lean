import SymbolRename.Entries
import SymbolRename.Template.Objects

/-!
# Templates

The text of a message with fields in braces. A field names an argument, looks into it by attributes
and items, may ask for a form of it after an exclamation mark and for a layout after a colon; a
layout may hold fields of its own, but those may not. Doubled braces stand for single ones. Faults
show in the order of the text: what comes before a malformed field is filled in first.
-/

set_option autoImplicit false

namespace SymbolRename.Template

structure Field where
  name : Text
  form : Option Code
  layout : Text
deriving DecidableEq

inductive Piece where
  | text (s : Text)
  | field (f : Field)
  | malformed
deriving DecidableEq

/-- The name of a field up to the character that ends it; what stands in brackets ends nothing. -/
def takeName : Bool → Text → Option (Text × Code × Text)
  | _, [] => none
  | true, c :: s =>
    (takeName (c ≠ .char ']') s).map fun (name, stop, rest) => (c :: name, stop, rest)
  | false, c :: s =>
    if c = .char '\x7b' then none
    else if c = .char '\x7d' || c = .char ':' || c = .char '!' then some ([], c, s)
    else (takeName (c = .char '[') s).map fun (name, stop, rest) => (c :: name, stop, rest)

/-- A layout up to the brace that closes its field; braces inside it come in pairs. -/
def takeLayout : Nat → Text → Option (Text × Text)
  | _, [] => none
  | depth, c :: s =>
    if c = .char '\x7d' && depth = 0 then some ([], s)
    else
      let depth :=
        if c = .char '\x7b' then depth + 1 else if c = .char '\x7d' then depth - 1 else depth
      (takeLayout depth s).map fun (layout, rest) => (c :: layout, rest)

def takeField (s : Text) : Option (Field × Text) := do
  let (name, stop, rest) ← takeName false s
  if stop = .char '\x7d' then return (⟨name, none, []⟩, rest)
  if stop = .char ':' then
    let (layout, rest) ← takeLayout 0 rest
    return (⟨name, none, layout⟩, rest)
  match rest with
  | form :: .char '\x7d' :: rest => return (⟨name, some form, []⟩, rest)
  | form :: .char ':' :: rest =>
    let (layout, rest) ← takeLayout 0 rest
    return (⟨name, some form, layout⟩, rest)
  | _ => none

/-- The pieces of a template; the first argument bounds their number. -/
def pieces : Nat → Text → List Piece
  | 0, _ => []
  | _, [] => []
  | fuel + 1, c :: s =>
    let plain := fun (d : Code) => d ≠ .char '\x7b' && d ≠ .char '\x7d'
    if plain c then
      .text (c :: s.takeWhile plain) :: pieces fuel (s.dropWhile plain)
    else if s.head? = some c then .text [c] :: pieces fuel s.tail
    else if c = .char '\x7d' then [.malformed]
    else match takeField s with
      | some (f, rest) => .field f :: pieces fuel rest
      | none => [.malformed]

def isNameCode (c : Code) : Bool := c ≠ .char '.' && c ≠ .char '['

section Filling
variable {α : Type} [Objects α]
open Objects

/-- Looks into an argument by the attributes and items that follow its name; the first argument
bounds their number. -/
def lookInto : Nat → α → Text → Except Fault α
  | 0, a, _ => .ok a
  | _, a, [] => .ok a
  | fuel + 1, a, c :: s =>
    if c = .char '.' then do
      let name := s.takeWhile isNameCode
      if name.isEmpty then throw .malformed
      lookInto fuel (← attributeOf a name) (s.dropWhile isNameCode)
    else if c = .char '[' then do
      let key := s.takeWhile (· ≠ .char ']')
      let rest := s.dropWhile (· ≠ .char ']')
      if key.isEmpty || rest.isEmpty then throw .malformed
      let item ←
        if key.all Text.isDecimalDigit then
          let n := Text.decimalValue key
          if n ≤ Layout.limit then itemByNumber a n else throw .malformed
        else itemByText a key
      lookInto fuel item rest.tail
    else .error .malformed

/-- The argument that the name of a field stands for. There are no arguments by position, so a name
that is empty or a number names nothing. -/
def argument (arguments : List (Text × α)) (name : Text) : Except Fault α := do
  let first := name.takeWhile isNameCode
  if first.all Text.isDecimalDigit then throw .missing
  match Entries.get? first arguments with
  | some a => lookInto name.length a (name.dropWhile isNameCode)
  | none => throw .missing

/-- Fills piece after piece; `inner` fills the layouts that hold fields. -/
def fillPieces (arguments : List (Text × α)) (inner : Text → Except Fault Text) :
    List Piece → Except Fault Text
  | [] => .ok []
  | .malformed :: _ => .error .malformed
  | .text s :: ps => do return s ++ (← fillPieces arguments inner ps)
  | .field f :: ps => do
    let a ← convert (← argument arguments f.name) f.form
    let layout ← if f.layout.contains (.char '\x7b') then inner f.layout else pure f.layout
    let s ← present a layout
    return s ++ (← fillPieces arguments inner ps)

/-- Fills a template whose fields may be nested less deep than the first argument says. -/
def fillNested (arguments : List (Text × α)) : Nat → Text → Except Fault Text
  | 0, _ => .error .malformed
  | depth + 1, template =>
    fillPieces arguments (fillNested arguments depth) (pieces template.length template)

def fill (template : Text) (arguments : List (Text × α)) : Except Fault Text :=
  fillNested arguments 2 template

end Filling
end SymbolRename.Template
