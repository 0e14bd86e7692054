import SymbolRename.Toml.Quoted
import SymbolRename.Toml.Table
import SymbolRename.Text.Quoted
import SymbolRename.Value.Shown

/-!
# Writing TOML

A table is written as its plain values, then its tables, each under its header. An array of tables
is written as tables of their own, unless each fits inline on one line; other arrays have one item a
line. Keys are texts, and nothing but text, numbers, truth values, moments, arrays and tables can be
written.
-/

set_option autoImplicit false

namespace SymbolRename.Toml
open Text

def escapeChar (c : Char) : List Char :=
  if c = '"' then ['\\', '"']
  else if c = '\\' then ['\\', '\\']
  else if c = '\n' then ['\\', 'n']
  else if c = '\r' then ['\\', 'r']
  else if c = '\x08' then ['\\', 'b']
  else if c = '\x0c' then ['\\', 'f']
  else if isForbidden false c then '\\' :: 'u' :: hexCode 4 c.toNat
  else [c]

/-- A surrogate stands for itself. -/
def escape : Code → Text
  | .char c => Text.ofChars (escapeChar c)
  | .half n => [.half n]

def quoted (s : Text) : Text := "\"" ++ s.flatMap escape ++ "\""

/-- A key is bare if it can be. Only a text can be a key. -/
def keyText? : Value → Option Text
  | .text s => some (if !s.isEmpty && s.all (·.passes isBare) then s else quoted s)
  | _ => none

def indent (level : Nat) : Text := List.replicate (4 * level) ' '

mutual

/-- A value in a line, or for an array with items in lines at the given level. -/
def inline? (level : Nat) : Value → Option Text
  | .bool b => some (if b then "true" else "false")
  | .text s => some (quoted s)
  | .list items => array? level items
  | .tuple items => array? level items
  | .dict entries =>
    if entries.isEmpty then some "\x7b\x7d"
    else (inlineEntries? entries).map fun es => "\x7b " ++ joined ", " es ++ " \x7d"
  | .null => none
  | .bytes _ => none
  | .set _ => none
  | v => some v.shown

def array? (level : Nat) (items : List Value) : Option Text :=
  if items.isEmpty then some "[]"
  else (inlineItems? (level + 1) items).map fun ls =>
    "[\n" ++ joined ",\n" (ls.map (indent (level + 1) ++ ·)) ++ ",\n" ++ indent level ++ "]"

def inlineItems? (level : Nat) : List Value → Option (List Text)
  | [] => some []
  | v :: vs => do return (← inline? level v) :: (← inlineItems? level vs)

def inlineEntries? : List (Value × Value) → Option (List Text)
  | [] => some []
  | (k, v) :: es => do
    let key ← keyText? k
    let line := key ++ " = " ++ (← inline? 0 v)
    return line :: (← inlineEntries? es)

end

def isTable : Value → Bool
  | .dict _ => true
  | _ => false

def items? : Value → Option (List Value)
  | .list items => some items
  | .tuple items => some items
  | _ => none

/-- The most characters of a table that stays inline among others, with indent and comma. -/
def lineLimit : Nat := 100

def fitsInline (text : Text) : Bool := text.length + 5 ≤ lineLimit && !text.contains (.char '\n')

/-- The items of an array that is written as tables of their own; none if it stays an array. -/
def asTables? (v : Value) : Option (Option (List Value)) :=
  match items? v with
  | some (i :: is) =>
    if (i :: is).all isTable then do
      let texts ← inlineItems? 0 (i :: is)
      some (if texts.all fitsInline then none else some (i :: is))
    else some none
  | _ => some none

def header (name : Text) (inArray : Bool) : Text :=
  if inArray then "[[" ++ name ++ "]]\n" else "[" ++ name ++ "]\n"

def nameBelow (name key : Text) : Text := if name.isEmpty then key else name ++ "." ++ key

def line? (k v : Value) : Option Text := do
  return (← keyText? k) ++ " = " ++ (← inline? 0 v) ++ "\n"

def lines? : List (Value × Value) → Option (List Text)
  | [] => some []
  | (k, v) :: es => do
    let below := isTable v || (← asTables? v).isSome
    let rest ← lines? es
    if below then some rest else return (← line? k v) :: rest

/-- The tables below, in order: key, table, and whether it is an item of an array. -/
def tables? : List (Value × Value) → Option (List (Value × Value × Bool))
  | [] => some []
  | (k, v) :: es => do
    let rest ← tables? es
    if isTable v then some ((k, v, false) :: rest)
    else match ← asTables? v with
      | some items => some (items.map (fun t => (k, t, true)) ++ rest)
      | none => some rest

/-- Writes a table under its name; the first argument bounds the depth. -/
def table? : Nat → Text → Bool → Table → Option Text
  | 0, _, _, _ => none
  | fuel + 1, name, inArray, t => do
    let tables ← tables? t
    let lines ← lines? t
    let headed := inArray || (!name.isEmpty && (!lines.isEmpty || tables.isEmpty))
    let own := (if headed then header name inArray else []) ++ lines.flatten
    let below ← tables.mapM fun (k, v, inArray) => do
      let key ← keyText? k
      match v with
      | .dict sub => table? fuel (nameBelow name key) inArray sub
      | _ => none
    let parts := if headed || !lines.isEmpty then own :: below else below
    return joined "\n" parts

mutual

def depth : Value → Nat
  | .list items => depths items + 1
  | .tuple items => depths items + 1
  | .dict entries => entryDepths entries + 1
  | _ => 1

def depths : List Value → Nat
  | [] => 0
  | v :: vs => max (depth v) (depths vs)

def entryDepths : List (Value × Value) → Nat
  | [] => 0
  | (_, v) :: es => max (depth v) (entryDepths es)

end

def write? (t : Table) : Option Text := table? (depth (.dict t) + 1) [] false t

end SymbolRename.Toml
