import SymbolRename.Calendar
import SymbolRename.Decimal.Binary
import SymbolRename.Entries

/-!
# Values of documents

What a function document, a message file or a configuration file can hold. A dictionary keeps its
entries in order of arrival, and numbers that are equal are one key: one, one point zero and true
are the same.
-/

set_option autoImplicit false

namespace SymbolRename

inductive Value where
  | null
  | bool (b : Bool)
  | int (i : Int)
  | float (x : Float)
  | text (s : Text)
  | bytes (b : List UInt8)
  | list (items : List Value)
  | tuple (items : List Value)
  | set (items : List Value)
  | dict (entries : List (Value × Value))
  | date (d : Date)
  | time (t : TimeOfDay)
  | dateTime (t : DateTime)
deriving Inhabited

namespace Value

/-- The integer that a value counts as: a truth value is one or zero, and a double without a
fraction is its integer. -/
def integer? : Value → Option Int
  | bool b => some (if b then 1 else 0)
  | int i => some i
  | float x => Decimal.integerOf? x
  | _ => none

def sameKey (a b : Value) : Bool :=
  match a, b with
  | null, null => true
  | text s, text t => s == t
  | bytes s, bytes t => s == t
  | float x, float y => x == y
  | date d, date e => d == e
  | dateTime s, dateTime t => s.same t
  | a, b =>
    match a.integer?, b.integer? with
    | some i, some j => i == j
    | _, _ => false

instance : BEq Value := ⟨sameKey⟩

/-- Whether a value can be a key: what can grow cannot. -/
def isKey : Value → Bool
  | list _ | set _ | dict _ => false
  | _ => true

/-- Zero, nothing and what is empty count as no. -/
def isTruthy : Value → Bool
  | null => false
  | bool b => b
  | int i => i != 0
  | float x => x != 0
  | text s => !s.isEmpty
  | bytes b => !b.isEmpty
  | list items | tuple items | set items => !items.isEmpty
  | dict entries => !entries.isEmpty
  | date _ | time _ | dateTime _ => true

def kind : Value → String
  | null => "NoneType"
  | bool _ => "bool"
  | int _ => "int"
  | float _ => "float"
  | text _ => "str"
  | bytes _ => "bytes"
  | list _ => "list"
  | tuple _ => "tuple"
  | set _ => "set"
  | dict _ => "dict"
  | date _ => "date"
  | time _ => "time"
  | dateTime _ => "datetime"

def field? (key : Text) (entries : List (Value × Value)) : Option Value :=
  Entries.get? (text key) entries

end Value
end SymbolRename
