import SymbolRename.Text.Lines

/-!
# Paths

A path is a row of names, from the root of the tree if it is rooted, else from wherever it is
looked up. Single dots and doubled or trailing slashes are dropped when a path is read; double dots
stay until the path is resolved. Two slashes at the front, which may be a root of their own, are
taken as one.
-/

set_option autoImplicit false

namespace SymbolRename.Files

structure Path where
  rooted : Bool
  parts : List Text
deriving DecidableEq

namespace Path

def ofText (s : Text) : Path :=
  ⟨s.head? = some (.char '/'),
    (Text.splitAt '/' s).filter fun p => !p.isEmpty && p ≠ "."⟩

def slashed (parts : List Text) : Text := Text.joined "/" parts

def text (p : Path) : Text :=
  if p.rooted then "/" ++ slashed p.parts
  else if p.parts.isEmpty then "." else slashed p.parts

/-- The second path seen from the first; a rooted one stands for itself. -/
def join (p q : Path) : Path := if q.rooted then q else ⟨p.rooted, p.parts ++ q.parts⟩

def child (p : Path) (name : Text) : Path := p.join (ofText name)

def parent (p : Path) : Path := ⟨p.rooted, p.parts.dropLast⟩

def name (p : Path) : Text := p.parts.getLast?.getD []

/-- A name cut before its last dot; a dot at either end does not cut. -/
def splitSuffix (name : Text) : Text × Text :=
  let back := name.reverse
  let suffix := back.takeWhile (· ≠ .char '.')
  let stem := (back.dropWhile (· ≠ .char '.')).drop 1
  if suffix.isEmpty || stem.isEmpty then (name, [])
  else (stem.reverse, '.' :: suffix.reverse)

def stem (p : Path) : Text := (splitSuffix p.name).1

def suffix (p : Path) : Text := (splitSuffix p.name).2

/-- Takes double dots away from left to right, each with the name before it; above the root there
is nothing. -/
def resolveParts : List Text → List Text → List Text
  | here, [] => here
  | here, p :: ps => resolveParts (if p = ".." then here.dropLast else here ++ [p]) ps

def resolve (here : List Text) (p : Path) : List Text :=
  resolveParts (if p.rooted then [] else here) p.parts

def ofPlace (place : List Text) : Path := ⟨true, place⟩

/-- How many bytes a text takes up in a file system, where a surrogate can only stand for a byte
that is no character. -/
def byteCount (s : Text) : Nat :=
  (s.map fun c =>
    match c with
    | .char c => c.utf8Size
    | .half _ => 1).foldr (· + ·) 0

def nameLimit : Nat := 255

def lengthLimit : Nat := 4095

/-- The surrogates that stand for bytes from 128 on. -/
def standsForByte (c : Code) : Bool := 0xDC80 ≤ c.toNat && c.toNat ≤ 0xDCFF

/-- A surrogate that stands for no byte cannot be encoded. -/
def isUnencodable (p : Path) : Bool :=
  p.parts.any (·.any fun c => Code.isSurrogate c.toNat && !standsForByte c)

/-- A path that no file system takes: it ends early, at a zero, or cannot be encoded. -/
def isImpossible (p : Path) : Bool :=
  p.isUnencodable || p.parts.any (·.contains (.char '\x00'))

end Path
end SymbolRename.Files
