import SymbolRename.Yaml.Lexer
import SymbolRename.Yaml.Tag

/-!
# Nodes of YAML

A document is a graph of scalars, sequences and mappings, each with its tag. Nodes are known by
their numbers. The graph is read from the tokens; a name given to a node by an anchor stands for
that node from there on, inside the node itself too, and is given only once.
-/

set_option autoImplicit false

namespace SymbolRename.Yaml

inductive Body where
  | scalar (text : Text)
  | sequence (items : List Nat)
  | mapping (entries : List (Nat × Nat))

structure Node where
  tag : Tag
  body : Body

def Node.empty : Node := ⟨.null, .scalar []⟩

/-- The nodes of a document by their numbers, and the number of its root. -/
structure Graph where
  nodes : Array Node
  root : Nat

namespace Graph

def node (nodes : Array Node) (n : Nat) : Node := nodes.getD n .empty

/-- The tokens that are left, the nodes so far, the names of nodes, what the handles of tags stand
for, and how many collections are open. -/
structure Source where
  tokens : List Token
  nodes : Array Node
  names : List (String × Nat)
  handles : List (String × String)
  depth : Nat

abbrev Reading := StateT Source (Except Fault)

def peek : Reading (Option Token) := do
  match (← get).tokens with
  | [] => return none
  | .broken f :: _ => throw f
  | t :: _ => return some t

def drop : Reading Unit := modify fun s => { s with tokens := s.tokens.tail }

def fail {α : Type} : Reading α := throw .unreadable

def isKey : Option Token → Bool
  | some .key => true
  | _ => false

def isValue : Option Token → Bool
  | some .value => true
  | _ => false

def isBlockEnd : Option Token → Bool
  | some .blockEnd => true
  | _ => false

def isBlockEntry : Option Token → Bool
  | some .blockEntry => true
  | _ => false

def isFlowEntry : Option Token → Bool
  | some .flowEntry => true
  | _ => false

def endsSequence : Option Token → Bool
  | some .flowSequenceEnd => true
  | _ => false

def endsMapping : Option Token → Bool
  | some .flowMappingEnd => true
  | _ => false

def properties : Reading (Option String × Option (Option String × String)) := do
  match ← peek with
  | some (.anchor a) =>
    drop
    match ← peek with
    | some (.tag h s) =>
      drop
      return (some a, some (h, s))
    | _ => return (some a, none)
  | some (.tag h s) =>
    drop
    match ← peek with
    | some (.anchor a) =>
      drop
      return (some a, some (h, s))
    | _ => return (none, some (h, s))
  | _ => return (none, none)

def tagText (tag : Option (Option String × String)) : Reading (Option String) := do
  match tag with
  | none => return none
  | some (none, suffix) => return some suffix
  | some (some h, suffix) =>
    match (← get).handles.lookup h with
    | some lead => return some (lead ++ suffix)
    | none => fail

def named (a : String) : Reading Nat := do
  match (← get).names.lookup a with
  | some n => return n
  | none => fail

def add (anchor : Option String) (node : Node) : Reading Nat := do
  let s ← get
  let n := s.nodes.size
  match anchor with
  | none => set { s with nodes := s.nodes.push node }
  | some a =>
    if (s.names.lookup a).isSome then fail
    set { s with nodes := s.nodes.push node, names := (a, n) :: s.names }
  return n

/-- The most collections that may be open at once. -/
def depthLimit : Nat := 488

/-- Adds a collection, which has its number before its contents are read. -/
def collect (anchor : Option String) (tag : Tag) (contents : Reading Body) : Reading Nat := do
  let n ← add anchor ⟨tag, .sequence []⟩
  if depthLimit ≤ (← get).depth then throw .tooDeep
  modify fun s => { s with depth := s.depth + 1 }
  let body ← contents
  modify fun s => { s with depth := s.depth - 1, nodes := s.nodes.setIfInBounds n ⟨tag, body⟩ }
  return n

/-- A tag that says nothing leaves a scalar to its form, if it is plain or the tag is the lone
mark. -/
def scalarTag (tag : Option String) (plain : Bool) (text : Text) : Tag :=
  match tag with
  | some "!" => .ofPlain text
  | some t => .ofUri t
  | none => if plain then .ofPlain text else .text

def collectionTag (tag : Option String) (usual : Tag) : Tag :=
  match tag with
  | none => usual
  | some "!" => usual
  | some t => .ofUri t

mutual

/-- A node. In a block context collections may show by indentation; as the value of a mapping a
sequence may stand at the indent of its mapping. The first argument bounds the length. -/
def nodeHere : Nat → Bool → Bool → Reading Nat
  | 0, _, _ => fail
  | fuel + 1, block, indentless => do
    match ← peek with
    | some (.alias a) =>
      drop
      named a
    | _ =>
      let (anchor, tag) ← properties
      let tag ← tagText tag
      let next ← peek
      if indentless && isBlockEntry next then
        collect anchor (collectionTag tag .sequence) (.sequence <$> indentlessItems fuel)
      else match next with
        | some (.scalar text plain) =>
          drop
          add anchor ⟨scalarTag tag plain text, .scalar text⟩
        | some .flowSequenceStart =>
          drop
          collect anchor (collectionTag tag .sequence) (.sequence <$> flowItems fuel true)
        | some .flowMappingStart =>
          drop
          collect anchor (collectionTag tag .mapping) (.mapping <$> flowEntries fuel true)
        | some .sequenceStart =>
          if !block then fail
          drop
          collect anchor (collectionTag tag .sequence) (.sequence <$> blockItems fuel)
        | some .mappingStart =>
          if !block then fail
          drop
          collect anchor (collectionTag tag .mapping) (.mapping <$> blockEntries fuel)
        | _ =>
          if anchor.isSome || tag.isSome then
            add anchor ⟨scalarTag tag true [], .scalar []⟩
          else fail

/-- A node, unless a token comes that shows that none is written. -/
def nodeUnless : Nat → Bool → Bool → (Option Token → Bool) → Reading Nat
  | 0, _, _, _ => fail
  | fuel + 1, block, indentless, stops => do
    if stops (← peek) then add none .empty else nodeHere fuel block indentless

def blockItems : Nat → Reading (List Nat)
  | 0 => fail
  | fuel + 1 => do
    let next ← peek
    if isBlockEntry next then
      drop
      let item ← nodeUnless fuel true false fun t => isBlockEntry t || isBlockEnd t
      return item :: (← blockItems fuel)
    else if isBlockEnd next then
      drop
      return []
    else fail

def indentlessItems : Nat → Reading (List Nat)
  | 0 => fail
  | fuel + 1 => do
    if isBlockEntry (← peek) then
      drop
      let item ← nodeUnless fuel true false fun t =>
        isBlockEntry t || isKey t || isValue t || isBlockEnd t
      return item :: (← indentlessItems fuel)
    else return []

def blockEntries : Nat → Reading (List (Nat × Nat))
  | 0 => fail
  | fuel + 1 => do
    let stops := fun (t : Option Token) => isKey t || isValue t || isBlockEnd t
    let next ← peek
    if isKey next then
      drop
      let k ← nodeUnless fuel true true stops
      let v ← if isValue (← peek) then do
          drop
          nodeUnless fuel true true stops
        else add none .empty
      return (k, v) :: (← blockEntries fuel)
    else if isBlockEnd next then
      drop
      return []
    else fail

def flowValue : Nat → (Option Token → Bool) → Reading Nat
  | 0, _ => fail
  | fuel + 1, ends => do
    if isValue (← peek) then
      drop
      nodeUnless fuel false false fun t => isFlowEntry t || ends t
    else add none .empty

/-- A key and its value in brackets are a mapping with one entry. -/
def flowPair : Nat → Reading (List (Nat × Nat))
  | 0 => fail
  | fuel + 1 => do
    let k ← nodeUnless fuel false false fun t => isValue t || isFlowEntry t || endsSequence t
    let v ← flowValue fuel endsSequence
    return [(k, v)]

def flowItems : Nat → Bool → Reading (List Nat)
  | 0, _ => fail
  | fuel + 1, first => do
    if endsSequence (← peek) then
      drop
      return []
    if !first then
      if isFlowEntry (← peek) then drop else fail
    let next ← peek
    if isKey next then
      drop
      let item ← collect none .mapping (.mapping <$> flowPair fuel)
      return item :: (← flowItems fuel false)
    else if endsSequence next then
      drop
      return []
    else
      let item ← nodeHere fuel false false
      return item :: (← flowItems fuel false)

def flowEntries : Nat → Bool → Reading (List (Nat × Nat))
  | 0, _ => fail
  | fuel + 1, first => do
    if endsMapping (← peek) then
      drop
      return []
    if !first then
      if isFlowEntry (← peek) then drop else fail
    let next ← peek
    if isKey next then
      drop
      let k ← nodeUnless fuel false false fun t => isValue t || isFlowEntry t || endsMapping t
      let v ← flowValue fuel endsMapping
      return (k, v) :: (← flowEntries fuel false)
    else if endsMapping next then
      drop
      return []
    else
      let k ← nodeHere fuel false false
      let v ← add none .empty
      return (k, v) :: (← flowEntries fuel false)

end

def standardHandles : List (String × String) := [("!", "!"), ("!!", Tag.space)]

/-- The directives before a document: at most one version, of the first generation, and each handle
once. -/
def directives : Nat → Bool → List (String × String) → Reading (List (String × String))
  | 0, _, _ => fail
  | fuel + 1, versioned, handles => do
    match ← peek with
    | some (.directive d) =>
      drop
      match d with
      | .version major =>
        if versioned || major ≠ 1 then fail else directives fuel true handles
      | .tag h lead =>
        if (handles.lookup h).isSome then fail
        else directives fuel versioned (handles ++ [(h, lead)])
      | .other => directives fuel versioned handles
    | _ => return handles

def endsDocument : Option Token → Bool
  | none => true
  | some .documentStart => true
  | some .documentEnd => true
  | some (.directive _) => true
  | _ => false

def dropDocumentEnds : Nat → Reading Unit
  | 0 => fail
  | fuel + 1 => do
    match ← peek with
    | some .documentEnd =>
      drop
      dropDocumentEnds fuel
    | _ => return ()

/-- The end of the text. Another document is a fault, found behind its directives. -/
def finish (fuel : Nat) (root : Nat) : Reading (Option Nat) := do
  dropDocumentEnds fuel
  match ← peek with
  | none => return some root
  | _ =>
    let _ ← directives fuel false []
    let _ ← peek
    fail

def document (fuel : Nat) : Reading (Option Nat) := do
  match ← peek with
  | none => return none
  | some .documentStart | some (.directive _) =>
    let handles ← directives fuel false []
    match ← peek with
    | some .documentStart =>
      drop
      let missing := standardHandles.filter fun e => (handles.lookup e.1).isNone
      modify fun s => { s with handles := handles ++ missing }
      finish fuel (← nodeUnless fuel true false endsDocument)
    | _ => fail
  | _ => finish fuel (← nodeHere fuel true false)

def read (s : Supply) : Except Fault (Option Graph) := do
  let ts := tokens s
  let (root, source) ← (document (4 * ts.length + 8)).run ⟨ts, #[], [], standardHandles, 0⟩
  return root.map (⟨source.nodes, ·⟩)

end Graph
end SymbolRename.Yaml
