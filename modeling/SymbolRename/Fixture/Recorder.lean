import SymbolRename.World

/-!
# Recorded notices

Looking back at the notices that a recorder kept, in the order in which they were sent.
-/

set_option autoImplicit false

namespace SymbolRename.Fixture

def recorded (journal : List Event) : List Notice :=
  journal.filterMap fun e =>
    match e with
    | .recorded n => some n
    | _ => none

def ofLevel (level : Option Text) (ns : List Notice) : List Notice :=
  ns.filter fun n => level.all (· = n.level.name)

/-- An argument as a value; what is none is shown by its text. -/
def argumentValue : Template.Argument → Value
  | .value v => v
  | .count n => .int n
  | a => .text a.shown

def noticeValue (n : Notice) : Value :=
  .dict [(.text "level", .text n.level.name), (.text "id", .text n.key),
    (.text "params", .dict (n.arguments.map fun a => (.text a.1, argumentValue a.2)))]

def assertSent (key : Text) (level : Option Text) (ns : List Notice) : Except Fault Unit :=
  if (ofLevel level ns).any (·.key = key) then .ok () else .error (.notSent key (ns.map (·.key)))

def assertNotSent (key : Text) (ns : List Notice) : Except Fault Unit :=
  if ns.any (·.key = key) then .error (.sent key) else .ok ()

def record (w : World) : World := { w with audience := .recorder }

def substitute (templates : List (Value × Value)) (w : World) : World :=
  { w with templates := some templates }

def restore (w : World) : World := { w with audience := .reader, templates := none }

end SymbolRename.Fixture
