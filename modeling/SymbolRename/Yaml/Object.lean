import SymbolRename.Entries
import SymbolRename.Value.Shown
import SymbolRename.Value.Slots
import SymbolRename.Yaml.Content
import SymbolRename.Yaml.Merge

/-!
# Objects of YAML

What the nodes of a document stand for. Each node stands for one object, known by the number of the
node, so an object may stand in several places, and in itself. A scalar is read as its tag says; a
set or a list of pairs is built from a mapping or from a sequence of mappings. Collections are made
empty and filled level after level, each in order, which decides which fault of several is told.
-/

set_option autoImplicit false

namespace SymbolRename.Yaml

inductive Object where
  | scalar (v : Value)
  /-- The word for no number stands for one object wherever it stands. -/
  | noNumber
  | list (items : List Nat)
  | pairs (entries : List (Nat × Nat))
  | set (items : List Nat)
  | dict (entries : List (Nat × Nat))

namespace Object

def isCollection : Object → Bool
  | scalar _ | noNumber => false
  | _ => true

end Object

structure Key where
  node : Nat
  object : Object

/-- One object is the same key as itself, and scalars are if they are equal. -/
def Key.same (a b : Key) : Bool :=
  a.node = b.node ||
    match a.object, b.object with
    | .scalar v, .scalar w => v == w
    | .noNumber, .noNumber => true
    | _, _ => false

instance : BEq Key := ⟨Key.same⟩

/-- The objects of a document by the numbers of their nodes, and the number of the root. -/
structure Objects where
  objects : Array Object
  root : Nat

namespace Objects

structure Progress where
  nodes : Array Node
  made : Array (Option Object)
  /-- Collections that are not filled yet, the last one first. -/
  waiting : List Nat

abbrev Making := StateT Progress (Except Fault)

/-- The text of a scalar, or of what stands under the default key of a mapping. The first argument
bounds the length of a chain of these. -/
def textOf (nodes : Array Node) : Nat → Nat → Except Fault Text
  | 0, _ => .error .tooDeep
  | fuel + 1, n =>
    match (Graph.node nodes n).body with
    | .scalar s => .ok s
    | .sequence _ => .error .unreadable
    | .mapping es =>
      match es.find? (Graph.hasKey nodes .default) with
      | some (_, v) => textOf nodes fuel v
      | none => .error .unreadable

/-- A moment is taken from the scalar itself. -/
def moment (body : Body) (text : Text) : Except Fault Value :=
  match body with
  | .mapping _ => .error .momentInMapping
  | _ => Content.moment text

def opened (nodes : Array Node) (n : Nat) : Except Fault Object := do
  let text := textOf nodes (nodes.size + 1) n
  match (Graph.node nodes n).tag with
  | .null => return (← text.map fun _ => .scalar .null)
  | .bool => return .scalar (.bool (← Content.bool (← text)))
  | .int => return .scalar (.int (← Content.integer (← text)))
  | .float =>
    let s ← text
    if Content.isNoNumber s then return .noNumber
    return .scalar (.float (← Content.float s))
  | .binary => return .scalar (.bytes (← Content.binary (← text)))
  | .moment => return .scalar (← moment (Graph.node nodes n).body (← text))
  | .text => return .scalar (.text (← text))
  | .sequence => return .list []
  | .pairs => return .pairs []
  | .set => return .set []
  | .mapping => return .dict []
  | .merge | .default | .unknown => throw .unreadable

def put (n : Nat) (o : Object) : Making Unit :=
  modify fun p => { p with made := p.made.setIfInBounds n (some o) }

def make (n : Nat) : Making Object := do
  let p ← get
  match p.made.getD n none with
  | some o => return o
  | none =>
    let o ← opened p.nodes n
    put n o
    if o.isCollection then modify fun p => { p with waiting := n :: p.waiting }
    return o

def fail {α : Type} : Making α := throw .unreadable

/-- A key and its value; what can grow is no key. -/
def makeEntry (entry : Nat × Nat) : Making (Key × Nat) := do
  let k ← make entry.1
  if k.isCollection then fail
  let _ ← make entry.2
  return (⟨entry.1, k⟩, entry.2)

/-- The entries of a mapping and of what its merge keys bring; of equal keys the last one counts, at
the place of the first. -/
def makeEntries (n : Nat) : Making (List (Nat × Nat)) := do
  let p ← get
  let (_, nodes) ← (Graph.flatten n).run p.nodes
  set { p with nodes := nodes }
  let es ← (Graph.entries nodes n).mapM makeEntry
  return (Entries.ofList es).map fun (k, v) => (k.node, v)

def makePair (n : Nat) : Making (Nat × Nat) := do
  match (Graph.node (← get).nodes n).body with
  | .mapping [(k, v)] =>
    let _ ← make k
    let _ ← make v
    return (k, v)
  | _ => fail

def makeAll (items : List Nat) : Making Unit := items.forM fun n => do
  let _ ← make n

def scalarOf? (made : Array (Option Object)) (n : Nat) : Option Value :=
  match made.getD n none with
  | some (.scalar v) => some v
  | _ => none

def fill (n : Nat) : Making Unit := do
  let node := Graph.node (← get).nodes n
  match node.tag, node.body with
  | .sequence, .sequence items =>
    makeAll items
    put n (.list items)
  | .pairs, .sequence items => put n (.pairs (← items.mapM makePair))
  | .set, .mapping _ =>
    let members := (← makeEntries n).map (·.1)
    put n (.set (Value.Slots.order (scalarOf? (← get).made) members))
  | .mapping, .mapping _ => put n (.dict (← makeEntries n))
  | _, _ => fail

/-- Fills collections level by level, at most as many levels as the first argument says. -/
def fillLevels : Nat → Making Unit
  | 0 => return ()
  | fuel + 1 => do
    let level := (← get).waiting.reverse
    if level.isEmpty then return
    modify fun p => { p with waiting := [] }
    level.forM fill
    fillLevels fuel

def ofGraph (g : Graph) : Except Fault Objects := do
  let start : Progress := ⟨g.nodes, .replicate g.nodes.size none, []⟩
  let (_, p) ← (do
    let _ ← make g.root
    fillLevels (g.nodes.size + 1)).run start
  return ⟨p.made.map (·.getD (.scalar .null)), g.root⟩

def read (s : Supply) : Except Fault (Option Objects) := do
  match ← Graph.read s with
  | none => return none
  | some g => return some (← ofGraph g)

def object (c : Objects) (n : Nat) : Object := c.objects.getD n (.scalar .null)

/-- The value of an object; what stands in itself has none. The first argument bounds the depth. -/
def valueWith (c : Objects) : Nat → Nat → Option Value
  | 0, _ => none
  | fuel + 1, n =>
    match c.object n with
    | .scalar v => some v
    | .noNumber => some (.float (0 / 0))
    | .list items => (items.mapM (valueWith c fuel)).map .list
    | .pairs es => (es.mapM fun (k, v) => do
        return Value.tuple [← valueWith c fuel k, ← valueWith c fuel v]).map .list
    | .set items => (items.mapM (valueWith c fuel)).map .set
    | .dict es => (es.mapM fun (k, v) => do
        return (← valueWith c fuel k, ← valueWith c fuel v)).map .dict

def value? (c : Objects) (n : Nat) : Option Value := c.valueWith (c.objects.size + 1) n

/-- The literal of an object inside others; one that stands in itself is cut short there. A number
that is too long has no literal. The first argument bounds the depth, and is never reached; where
the stack ends is left out. -/
def literalIn (c : Objects) : Nat → List Nat → Nat → Option Text
  | 0, _, _ => none
  | fuel + 1, outer, n =>
    match c.object n with
    | .scalar v => v.literal?
    | .noNumber => some "nan"
    | .list items =>
      if outer.contains n then some "[...]"
      else (items.mapM (literalIn c fuel (n :: outer))).map (Value.enclosed "[" · "]")
    | .pairs es =>
      if outer.contains n then some "[...]"
      else (es.mapM fun (k, v) => do
        let k ← literalIn c fuel (n :: outer) k
        let v ← literalIn c fuel (n :: outer) v
        return Value.enclosed "(" [k, v] ")").map (Value.enclosed "[" · "]")
    | .set items =>
      if items.isEmpty then some "set()"
      else (items.mapM (literalIn c fuel (n :: outer))).map (Value.enclosed "\x7b" · "\x7d")
    | .dict es =>
      if outer.contains n then some "\x7b...\x7d"
      else (es.mapM fun (k, v) => do
        let k ← literalIn c fuel (n :: outer) k
        let v ← literalIn c fuel (n :: outer) v
        return k ++ ": " ++ v).map (Value.enclosed "\x7b" · "\x7d")

def literal? (c : Objects) (n : Nat) : Option Text := c.literalIn (c.objects.size + 1) [] n

def shown? (c : Objects) (n : Nat) : Option Text :=
  match c.object n with
  | .scalar v => v.shown?
  | _ => c.literal? n

def isTruthy (c : Objects) (n : Nat) : Bool :=
  match c.object n with
  | .scalar v => v.isTruthy
  | .noNumber => true
  | .list items | .set items => !items.isEmpty
  | .pairs es | .dict es => !es.isEmpty

end Objects
end SymbolRename.Yaml
