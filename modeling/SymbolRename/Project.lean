import SymbolRename.Files.Tree

/-!
# Projects

A project is a directory with a configuration file or a repository in it. Both the root of the
project and the configuration are looked for from a directory upwards; the root of the tree holds
no project, but its configuration file counts.
-/

set_option autoImplicit false

namespace SymbolRename.Project
open Files

def configurationName : Text := "pyproject.toml"

def repositoryName : Text := ".git"

/-- A directory and those above it, nearest first; the first argument counts its names. -/
def ancestorsFrom : Nat → Place → List Place
  | 0, _ => [[]]
  | n + 1, place => place :: ancestorsFrom n place.dropLast

/-- A directory and those above it, unless no directory can be called so. -/
def ancestors (place : Place) : Except Fault (List Place) :=
  let p := Path.ofPlace place
  if p.isImpossible then .error (.impossible p) else .ok (ancestorsFrom place.length place)

def inside (place : Place) (name : Text) : Path := .ofPlace (place ++ [name])

def holdsConfiguration (t : Tree) (place : Place) : Except Fault Bool :=
  t.isFile [] (inside place configurationName)

def isRoot (t : Tree) (place : Place) : Except Fault Bool := do
  if place.isEmpty then return false
  if ← holdsConfiguration t place then return true
  t.isDirectory [] (inside place repositoryName)

def root (t : Tree) (start : Place) : Except Fault Place := do
  return ((← (← ancestors start).findM? (isRoot t))).getD start

def configured? (t : Tree) (start : Place) : Except Fault (Option Place) := do
  (← ancestors start).findM? (holdsConfiguration t)

end SymbolRename.Project
