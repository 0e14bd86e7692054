import SymbolRename.Yaml.Node

/-!
# Merge keys

The value of a merge key is a mapping, or a sequence of mappings of which the first counts most;
their entries belong to the mapping that the key stands in, before its own. Merging changes the
nodes themselves, so a mapping that stands in several places is merged once, and a mapping that
brings itself brings what it has at that time.
-/

set_option autoImplicit false

namespace SymbolRename.Yaml.Graph

abbrev Merging := StateT (Array Node) (Except Fault)

def entries (nodes : Array Node) (n : Nat) : List (Nat × Nat) :=
  match (node nodes n).body with
  | .mapping es => es
  | _ => []

def hasKey (nodes : Array Node) (tag : Tag) (entry : Nat × Nat) : Bool :=
  (node nodes entry.1).tag = tag

def setEntries (n : Nat) (es : List (Nat × Nat)) : Merging Unit :=
  modify fun nodes => nodes.setIfInBounds n ⟨(node nodes n).tag, .mapping es⟩

/-- Takes the first merge key out of a mapping; what stands under it. -/
def takeMerge (n : Nat) : Merging (Option Nat) := do
  let nodes ← get
  let es := entries nodes n
  match es.dropWhile (!hasKey nodes .merge ·) with
  | [] => return none
  | (_, v) :: after =>
    setEntries n (es.takeWhile (!hasKey nodes .merge ·) ++ after)
    return some v

/-- A default key is a plain text where a whole mapping is wanted. -/
def settleKey (nodes : Array Node) (entry : Nat × Nat) : Array Node :=
  if hasKey nodes .default entry then
    nodes.setIfInBounds entry.1 ⟨.text, (node nodes entry.1).body⟩
  else nodes

/-- The entries of a mapping after its own merge keys have been followed. -/
def broughtBy (flatten : Nat → Merging Unit) (n : Nat) : Merging (List (Nat × Nat)) := do
  match (node (← get) n).body with
  | .mapping _ =>
    flatten n
    return entries (← get) n
  | _ => throw .unreadable

def brought (flatten : Nat → Merging Unit) (n : Nat) : Merging (List (Nat × Nat)) := do
  match (node (← get) n).body with
  | .sequence items => return (← items.mapM (broughtBy flatten)).reverse.flatten
  | _ => broughtBy flatten n

/-- Follows the merge keys of a mapping. The first argument bounds their number in the document. -/
def flattenWith : Nat → Nat → Merging Unit
  | 0, _ => throw .unreadable
  | fuel + 1, n => do
    match ← takeMerge n with
    | none => modify fun nodes => (entries nodes n).foldl settleKey nodes
    | some v =>
      let es ← brought (flattenWith fuel) v
      flattenWith fuel n
      setEntries n (es ++ entries (← get) n)

def mergeCount (nodes : Array Node) : Nat :=
  (nodes.toList.map fun n =>
    match n.body with
    | .mapping es => es.countP (hasKey nodes .merge)
    | _ => 0).foldr (· + ·) 0

def flatten (n : Nat) : Merging Unit := do
  flattenWith (mergeCount (← get) + 1) n

end SymbolRename.Yaml.Graph
