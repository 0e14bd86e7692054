import SymbolRename.Value.Shown

/-!
# Message keys

A message is addressed by a row of names, written with dots between them. Rows that are written the
same are different rows and one address: rows are compared part by part, and a row is equal to
anything else that has its text.
-/

set_option autoImplicit false

namespace SymbolRename.Message

structure Key where
  parts : List Text
deriving DecidableEq

namespace Key

/-- Empty names do not count. -/
def ofParts (parts : List Text) : Key := ⟨parts.filter (!·.isEmpty)⟩

def text (k : Key) : Text := Text.joined "." k.parts

def literal (k : Key) : Text := "<SemanticPointer: \x27" ++ k.text ++ "\x27>"

inductive Step where
  | key (k : Key)
  /-- The row itself, which is no key any more. -/
  | parts (ps : List Text)

inductive Fault where
  | privateName (name : Text)
  | notInParts (name : Text)
  | immutable

def Fault.message : Fault → Text
  | .privateName name => name
  | .notInParts name => "\x27tuple\x27 object has no attribute \x27" ++ name ++ "\x27"
  | .immutable => "SemanticPointer is immutable"

/-- The key one name further; a name that starts with an underscore is no part of a key. -/
def member (k : Key) (name : Text) : Except Fault Step :=
  if name = "parts" || name = "_parts" then .ok (.parts k.parts)
  else if name.head? = some (.char '_') then .error (.privateName name)
  else .ok (.key (ofParts (k.parts ++ [name])))

def follow : Step → List Text → Except Fault Step
  | s, [] => .ok s
  | .key k, name :: names => do follow (← k.member name) names
  | .parts _, name :: _ => .error (.notInParts name)

/-- Nothing can be set on a key. -/
def assign (_ : Key) (_ : Text) : Except Fault Unit := .error .immutable

end Key

inductive Address where
  | key (k : Key)
  | value (v : Value)

namespace Address

def text : Address → Text
  | key k => k.text
  | value v => v.shown

/-- Two keys are equal part by part; a key and anything else by their texts. -/
def same : Address → Address → Bool
  | key a, key b => a.parts = b.parts
  | a, b => a.text = b.text

def hashText? : Address → Option Text
  | key k => some k.text
  | value (.text s) => some s
  | value _ => none

end Address
end SymbolRename.Message
