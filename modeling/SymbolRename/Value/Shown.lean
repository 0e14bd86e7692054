import SymbolRename.Decimal.Notation
import SymbolRename.Text.Quoted
import SymbolRename.Value

/-!
# Values shown as text

A value has a literal, in which texts are quoted, and a text, which is the literal except that a
text is itself and a moment is given by its fields. Everything inside a container is shown by its
literal. Values may be nested as deep as they like here: where the stack ends is left out.
-/

set_option autoImplicit false

namespace SymbolRename.Value

def enclosed (opening : Text) (items : List Text) (closing : Text) : Text :=
  opening ++ Text.joined ", " items ++ closing

mutual

def literal : Value → Text
  | null => "None"
  | bool b => if b then "True" else "False"
  | int i => Text.ofChars (Text.signedDecimal i)
  | float x => Text.ofChars (Decimal.plainText x)
  | text s => Text.ofChars (Text.literal s)
  | bytes b => Text.ofChars (Text.bytesLiteral b)
  | list items => enclosed "[" (literals items) "]"
  | tuple items => if items.length = 1 then enclosed "(" (literals items) ",)"
      else enclosed "(" (literals items) ")"
  | set items => if items.isEmpty then "set()" else enclosed "\x7b" (literals items) "\x7d"
  | dict entries => enclosed "\x7b" (entryLiterals entries) "\x7d"
  | date d => d.literal
  | time t => t.literal
  | dateTime t => t.literal

def literals : List Value → List Text
  | [] => []
  | v :: vs => v.literal :: literals vs

def entryLiterals : List (Value × Value) → List Text
  | [] => []
  | (k, v) :: es => (k.literal ++ ": " ++ v.literal) :: entryLiterals es

end

def shown : Value → Text
  | text s => s
  | date d => Text.ofChars d.text
  | time t => Text.ofChars t.text
  | dateTime t => Text.ofChars (t.text ' ')
  | v => v.literal

def digitLimit : Nat := 4300

def isTooLong (i : Int) : Bool := Nat.pow 10 digitLimit ≤ i.natAbs

def literal? : Value → Option Text
  | int i => if isTooLong i then none else some (int i).literal
  | v => some v.literal

def shown? : Value → Option Text
  | int i => if isTooLong i then none else some (int i).shown
  | v => some v.shown

end SymbolRename.Value
