import SymbolRename.Files.Path
import SymbolRename.Template.Member
import SymbolRename.Template.Objects
import SymbolRename.Template.Presentation
import SymbolRename.Template.Written

/-!
# Arguments of a template

What the fields of a template may show: values, paths, the kinds of both, and what these give to
their values. An argument is looked into by attributes and by items: numbers have their parts, paths
have theirs, a dictionary is indexed by its keys and a row of items by position. Of what kinds and
their members tell about themselves only names, places and lineage are given here; what they say in
prose, how they are called and how they are laid out in memory is left out, and so are the parts of
moments.
-/

set_option autoImplicit false

namespace SymbolRename.Template

inductive Argument where
  | value (v : Value)
  /-- How many there are of something, which is never too long to be written. -/
  | count (n : Nat)
  | path (p : Files.Path)
  /-- The paths above a path, nearest first. -/
  | ancestors (p : Files.Path)
  | kind (k : Kind)
  | kinds (ks : List Kind)
  /-- A kind of collections for items that are given by an example. -/
  | applied (k : Kind) (item : Value)
  /-- A member of a kind. -/
  | member (m : Member)
  /-- A member that belongs to an argument. -/
  | bound (m : Member) (owner : Argument)

namespace Argument

def text (s : Text) : Argument := .value (.text s)

def null : Argument := .value .null

def pathParts (p : Files.Path) : List Text := if p.rooted then "/" :: p.parts else p.parts

def textRow (ss : List Text) : List Value := ss.map .text

def pathLiteral (p : Files.Path) : Text :=
  "PosixPath(" ++ Text.ofChars (Text.literal p.text) ++ ")"

def kindText (k : Kind) : Text := "<class \x27" ++ k.fullName ++ "\x27>"

/-- Kinds in parentheses; a comma follows one that is alone. -/
def kindsText (ks : List Kind) : Text :=
  Value.enclosed "(" (ks.map kindText) (if ks.length = 1 then ",)" else ")")

def kindOfValue : Value → Kind
  | .null => .nothing
  | .bool _ => .truth
  | .int _ => .integer
  | .float _ => .real
  | .text _ => .text
  | .bytes _ => .bytes
  | .list _ => .list
  | .tuple _ => .tuple
  | .set _ => .set
  | .dict _ => .dict
  | .date _ => .date
  | .time _ => .time
  | .dateTime _ => .dateTime

def kindOf : Argument → Kind
  | value v => kindOfValue v
  | count _ => .integer
  | path _ => .posixPath
  | ancestors _ => .ancestors
  | kind _ => .type
  | kinds _ => .tuple
  | applied _ _ => .applied
  | member m => m.kind
  | bound m _ => m.boundKind

def literal : Argument → Text
  | value v => v.literal
  | count n => Text.ofChars (Text.signedDecimal n)
  | path p => pathLiteral p
  | ancestors _ => "<PosixPath.parents>"
  | kind k => kindText k
  | kinds ks => kindsText ks
  | applied k item => k.name ++ "[" ++ item.literal ++ "]"
  | member m => m.shown
  | bound m owner => m.boundShown owner.kindOf owner.literal

def shown : Argument → Text
  | value v => v.shown
  | path p => p.text
  | a => a.literal

def unshowable? : Argument → Option Fault
  | value v => unwritable? nestingLimit v
  | applied _ item => unwritable? nestingLimit item
  | _ => none

def showing (a : Argument) (s : Text) : Except Fault Text :=
  match a.unshowable? with
  | some e => .error e
  | none => .ok s

/-- The suffixes of a name: each dot starts one, but for those at the front of the name. -/
def suffixes (name : Text) : List Text :=
  if name.getLast? = some (.char '.') then []
  else ((Text.splitAt '.' (name.dropWhile (· = .char '.'))).drop 1).map ("." ++ ·)

def rootText (p : Files.Path) : Text := if p.rooted then "/" else []

def integerProperty? (i : Int) (name : Text) : Option Argument :=
  if name = "real" || name = "numerator" then some (.value (.int i))
  else if name = "imag" then some (.value (.int 0))
  else if name = "denominator" then some (.value (.int 1))
  else none

def pathProperty? (p : Files.Path) (name : Text) : Option Argument :=
  if name = "name" then some (text p.name)
  else if name = "stem" then some (text p.stem)
  else if name = "suffix" then some (text p.suffix)
  else if name = "suffixes" then some (.value (.list (textRow (suffixes p.name))))
  else if name = "parent" then some (.path p.parent)
  else if name = "parents" then some (.ancestors p)
  else if name = "parts" then some (.value (.tuple (textRow (pathParts p))))
  else if name = "_cparts" then some (.value (.list (textRow (pathParts p))))
  else if name = "root" || name = "anchor" then some (text (rootText p))
  else if name = "drive" then some (text [])
  else none

def property? (a : Argument) (name : Text) : Option Argument :=
  match a with
  | value (.int i) => integerProperty? i name
  | count n => integerProperty? n name
  | value (.bool b) => integerProperty? (if b then 1 else 0) name
  | value (.float x) =>
    if name = "real" then some (.value (.float x))
    else if name = "imag" then some (.value (.float 0))
    else none
  | path p => pathProperty? p name
  | _ => none

def aboutKind? (k : Kind) : Option Argument :=
  if k = .nothing then some null else k.about?.map fun s => text s

def about? : Argument → Option Argument
  | kind k => aboutKind? k
  | applied k _ => aboutKind? k
  | member _ => none
  | bound _ _ => none
  | a => aboutKind? a.kindOf

def kindPart? (k : Kind) (name : Text) : Option Argument :=
  if name = "__name__" || name = "__qualname__" then some (text k.name)
  else if name = "__module__" then some (text k.origin)
  else if name = "__base__" then some (k.bases.head?.elim null .kind)
  else if name = "__bases__" then some (.kinds k.bases)
  else if name = "__mro__" then some (.kinds k.lineage)
  else none

def pathPart? (k : Kind) (name : Text) : Option Argument :=
  if !k.isPath then none
  else if name = "__module__" then some (text k.origin)
  else if name = "__slots__" then some (.value (.tuple []))
  else none

def appliedPart? (k : Kind) (item : Value) (name : Text) : Option Argument :=
  if name = "__origin__" then some (.kind k)
  else if name = "__args__" then some (.value (.tuple [item]))
  else if name = "__parameters__" then some (.value (.tuple []))
  else none

def memberPart? (m : Member) (name : Text) : Option Argument :=
  if m.kind = .functionProperty then none
  else if name = "__name__" then some (text m.name)
  else if name = "__qualname__" then some (text (m.nameIn m.owner))
  else if m.kind = .function then
    if name = "__module__" then some (text m.owner.origin) else none
  else if name = "__objclass__" then some (.kind m.owner)
  else none

def nearestKind : Argument → Kind
  | kind k => k
  | a => a.kindOf

def boundPart? (m : Member) (owner : Argument) (name : Text) : Option Argument :=
  if name = "__name__" then some (text m.name)
  else if name = "__self__" then some owner
  else if name = "__qualname__" then
    some (text (m.nameIn (if m.boundKind = .boundMethod then owner.nearestKind else m.owner)))
  else if name = "__module__" then
    match m.boundKind with
    | .boundFunction => some (text m.owner.origin)
    | .boundMethod => some null
    | _ => none
  else if name = "__objclass__" && m.boundKind = .boundOperation then some (.kind m.owner)
  else none

/-- Whether all members that an argument has from a kind are given here. -/
def isListed : Argument → Bool
  | kind k => k.isListed || k.isPath
  | applied k _ => k.isListed
  | member _ => false
  | bound _ _ => false
  | a => a.kindOf.isListed || a.kindOf.isPath

def given? (a : Argument) (name : Text) : Option Argument := do
  let m ← a.kindOf.member? name
  match m.role with
  | .missing => return null
  | .property => a.property? name
  | .shared => return .bound m (.kind a.kindOf)
  | .detached => return .member m
  | _ => return .bound m a

def ofKind? (k : Kind) (name : Text) : Option Argument := do
  let m ← k.member? name
  match m.role with
  | .missing => return null
  | .shared => return .bound m (.kind k)
  | _ => return .member m

/-- What an argument tells about itself under a name, before what its kind gives to it. -/
def own? (a : Argument) (name : Text) : Option Argument :=
  match a with
  | kind k => kindPart? k name <|> pathPart? k name
  | path p => pathPart? (kindOf (.path p)) name
  | applied k item => appliedPart? k item name <|> kindPart? k name
  | member m => memberPart? m name
  | bound m owner => boundPart? m owner name
  | _ => none

/-- A member that an argument has, as a kind of its own or else from its kind. -/
def member? (a : Argument) (name : Text) : Option Argument :=
  if !a.isListed then none
  else match a with
    | kind k => ofKind? k name <|> a.given? name
    | applied k _ => ofKind? k name <|> (kind k).given? name
    | _ => a.given? name

/-- Whether an argument has only the attribute of a name that is given here, if any. -/
def hasAll (a : Argument) (name : Text) : Bool :=
  let plain := name.head? ≠ some (.char '_')
  match a with
  | value _ => a.kindOf.isListed
  | count _ => true
  | kinds _ => true
  | kind k => k.isListed && plain
  | applied k _ => k.isListed && plain
  | member m => !m.owner.isPath && plain
  | bound m _ => !m.owner.isPath && plain
  | _ => false

def attributeOf (a : Argument) (name : Text) : Except Fault Argument :=
  let found :=
    if name = "__class__" then some (.kind a.kindOf)
    else if name = "__doc__" then a.about?
    else a.own? name <|> a.member? name
  match found with
  | some b => .ok b
  | none => .error (if a.hasAll name then .noAttribute else .unmodelled)

def itemAt (items : List Argument) (n : Nat) : Except Fault Argument :=
  match items[n]? with
  | some a => .ok a
  | none => .error .missing

def valueAt (items : List Value) (n : Nat) : Except Fault Argument := itemAt (items.map .value) n

def entryAt (entries : List (Value × Value)) (key : Value) : Except Fault Argument :=
  match Entries.get? key entries with
  | some v => .ok (.value v)
  | none => .error .missing

/-- The paths above a path, up to the root or to the place that it starts from. -/
def ancestorsOf (p : Files.Path) : List Argument :=
  (List.range p.parts.length).map fun n => .path ⟨p.rooted, p.parts.take (p.parts.length - n - 1)⟩

def applyKind (k : Kind) (item : Value) : Except Fault Argument :=
  if [Kind.type, .list, .tuple, .set, .dict].contains k then .ok (.applied k item)
  else .error .wrongKind

/-- An item by position, for what has an order, or by that number as a key. -/
def itemByNumber (a : Argument) (n : Nat) : Except Fault Argument :=
  match a with
  | value (.text s) => valueAt (s.map fun c => .text [c]) n
  | value (.bytes b) => valueAt (b.map fun x => .int x.toNat) n
  | value (.list items) => valueAt items n
  | value (.tuple items) => valueAt items n
  | value (.dict entries) => entryAt entries (.int n)
  | kinds ks => itemAt (ks.map .kind) n
  | ancestors p => itemAt (ancestorsOf p) n
  | kind k => applyKind k (.int n)
  | _ => .error .wrongKind

def itemByText (a : Argument) (key : Text) : Except Fault Argument :=
  match a with
  | value (.dict entries) => entryAt entries (.text key)
  | kind k => applyKind k (.text key)
  | _ => .error .wrongKind

/-- An argument under a layout. An empty layout shows any argument; the others are for texts and
numbers only. -/
def present (a : Argument) (layout : Text) : Except Fault Text :=
  if layout.isEmpty then a.showing a.shown
  else match a with
    | value (.text s) => do presentText (← Layout.read (some 's') layout) s
    | value (.float x) => do presentFloat (← Layout.read none layout) x
    | value (.int i) => integer i
    | value (.bool b) => integer (if b then 1 else 0)
    | count n => integer n
    | _ => .error .wrongKind
where
  integer (i : Int) : Except Fault Text := do
    let l ← Layout.read (some 'd') layout
    if l.letter.any ("bcdoxXn".toList.contains ·) then presentInteger l i
    else if l.letter.any ("eEfFgG%".toList.contains ·) then presentIntegerAsFloat l i
    else .error .malformed

instance : Objects Argument where
  ofText := text
  attributeOf := attributeOf
  itemByNumber := itemByNumber
  itemByText := itemByText
  shown a := a.showing a.shown
  literal a := a.showing a.literal
  present := present
  present_ofText _ := rfl

end Argument
end SymbolRename.Template
