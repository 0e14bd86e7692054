import SymbolRename.Value

/-!
# Tables of TOML

A document is a table of tables. What a header or a dotted key has opened may be closed to later
statements: a table opened by its own header, or by a dotted key of another section, is not opened
again; an array or table written inline is closed with all that is below it.
-/

set_option autoImplicit false

namespace SymbolRename.Toml

abbrev Table := List (Value × Value)

/-- Changes the table at the end of a path, making those that are missing on the way. In an array of
tables the last one counts, if `throughArrays`. -/
def updateAt (throughArrays : Bool) (change : Table → Option Table) :
    List Text → Table → Option Table
  | [], t => change t
  | k :: ks, t => do
    let put := fun (v : Value) => Entries.put (.text k) v t
    match Value.field? k t with
    | none => (updateAt throughArrays change ks []).map fun sub => put (.dict sub)
    | some (.dict sub) => (updateAt throughArrays change ks sub).map fun sub => put (.dict sub)
    | some (.list items) =>
      match throughArrays, items.getLast? with
      | true, some (.dict sub) =>
        (updateAt throughArrays change ks sub).map fun sub =>
          put (.list (items.dropLast ++ [.dict sub]))
      | _, _ => none
    | some _ => none

def addNew (key : Text) (v : Value) (t : Table) : Option Table :=
  if (Value.field? key t).isSome then none else some (Entries.put (.text key) v t)

def addTable (key : Text) (t : Table) : Option Table :=
  match Value.field? key t with
  | none => some (Entries.put (.text key) (.list [.dict []]) t)
  | some (.list items) => some (Entries.put (.text key) (.list (items ++ [.dict []])) t)
  | some _ => none

/-- How far a path is closed. -/
inductive Seal where
  /-- It is not to be opened by a header or a dotted key. -/
  | opened
  /-- Nothing at or below it may change. -/
  | frozen
deriving DecidableEq

abbrev Seals := List (List Text × Seal)

def isOpened (path : List Text) (seals : Seals) : Bool := seals.contains (path, .opened)

def isFrozen (path : List Text) (seals : Seals) : Bool :=
  seals.any fun (p, s) => s = .frozen && p.isPrefixOf path

/-- Takes away what is said of a path and of all below it. -/
def reopen (path : List Text) (seals : Seals) : Seals :=
  seals.filter fun (p, _) => !path.isPrefixOf p

end SymbolRename.Toml
