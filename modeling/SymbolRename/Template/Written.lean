import SymbolRename.Template.Layout
import SymbolRename.Value.Shown

/-!
# What keeps a value from being written

A value is written part after part, and this ends at an integer that is too long or at a part that
is nested too deep.
-/

set_option autoImplicit false

namespace SymbolRename.Template

/-- The most levels of nesting that are written. They are what the stack has room for, so a few more
or fewer fit where a message is made with less or more around it. -/
def nestingLimit : Nat := 990

mutual

/-- Why a value cannot be written; the first argument is the number of levels that are left. -/
def unwritable? : Nat → Value → Option Fault
  | 0, _ => some .tooDeep
  | _ + 1, .int i => if Value.isTooLong i then some .malformed else none
  | room + 1, .list items => unwritableItems? room items
  | room + 1, .tuple items => unwritableItems? room items
  -- The items of a set are put into a list, which is a level of its own.
  | room + 1, .set items => unwritableItems? (room - 1) items
  | room + 1, .dict entries => unwritableEntries? room entries
  | _ + 1, _ => none

def unwritableItems? : Nat → List Value → Option Fault
  | _, [] => none
  | room, v :: vs => unwritable? room v <|> unwritableItems? room vs

def unwritableEntries? : Nat → List (Value × Value) → Option Fault
  | _, [] => none
  | room, (k, v) :: es =>
    unwritable? room k <|> unwritable? room v <|> unwritableEntries? room es

end

end SymbolRename.Template
