import SymbolRename.Fault

/-!
# Sample functions

Functions for trying things out, from rows of names. A text is a row of characters, a dictionary a
row of keys, and whatever counts as nothing an empty row.
-/

set_option autoImplicit false

namespace SymbolRename.Fixture

def row (v : Value) : Except Fault (List Value) :=
  match v with
  | .text s => .ok (s.map fun c => .text [c])
  | .bytes b => .ok (b.map fun x => .int x.toNat)
  | .list items | .tuple items | .set items => .ok items
  | .dict entries => .ok (entries.map (·.1))
  | v => if v.isTruthy then .error .noRow else .ok []

def sampleName : Text := "FUN_00401000"

def addNamed (kind : SymbolKind) (source : Text) (f : Function) (name : Value) :
    Except Fault Function :=
  match f.add kind name.shown source with
  | .ok f => .ok f
  | .error r => .error (.refused r)

def sample (name : Text) (parameters locals : Value) (source : Text) :
    Except Fault Function := do
  let f ← (← row parameters).foldlM (addNamed .parameter source) (.empty name)
  (← row locals).foldlM (addNamed .localVariable source) f

end SymbolRename.Fixture
