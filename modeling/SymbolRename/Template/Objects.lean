import SymbolRename.Template.Layout
import SymbolRename.Text.Quoted

/-!
# Objects that templates show

What the fields of a template stand for comes from outside. An object has attributes and items, and
is shown as it is, by its literal or under a layout. An object may refuse any of these, and with
which fault is up to the object: only a text never refuses to be shown as it is. The arguments of the
program are an instance; how a template is filled does not depend on which objects there are.
-/

set_option autoImplicit false

namespace SymbolRename.Template

class Objects (α : Type) where
  ofText : Text → α
  attributeOf : α → Text → Except Fault α
  itemByNumber : α → Nat → Except Fault α
  itemByText : α → Text → Except Fault α
  shown : α → Except Fault Text
  literal : α → Except Fault Text
  present : α → Text → Except Fault Text
  present_ofText (s : Text) : present (ofText s) [] = .ok s

namespace Objects
variable {α : Type} [Objects α]

/-- The forms that may be asked for after an exclamation mark; a zero code asks for none. -/
def convert (a : α) : Option Code → Except Fault α
  | none => .ok a
  | some (.char '\x00') => .ok a
  | some (.char 's') => (shown a).map ofText
  | some (.char 'r') => (literal a).map ofText
  | some (.char 'a') => (literal a).map fun s => ofText (Text.ofChars (Text.asciiOnly s))
  | some _ => .error .malformed

end Objects
end SymbolRename.Template
