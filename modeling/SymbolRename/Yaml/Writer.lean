import SymbolRename.Decimal.Notation
import SymbolRename.Text.Base64
import SymbolRename.Text.Lines
import SymbolRename.Value
import SymbolRename.Yaml.Style

/-!
# Writing YAML

A value as a document in block style, two blanks deeper at each level; a sequence in a mapping
stands at the indent of its mapping. A key that is short and in one line stands before its value;
any other key is marked by a question mark, and its value follows on a line of its own.
-/

set_option autoImplicit false

namespace SymbolRename.Yaml.Writer

/-- A scalar ready to be written, with its tag: in a style, or bytes in lines of their own. -/
inductive Scalar where
  | styled (tag : List Char) (style : Style)
  | bytes (lines : List (List Char))

def floatText (x : Float) : List Char :=
  if x.isNaN then ".nan".toList
  else if x.isInf then (if x < 0 then "-.inf" else ".inf").toList
  else
    let s := Decimal.plainText x
    if s.contains '.' then s
    else s.flatMap fun c => if c = 'e' then ['.', '0', 'e'] else [c]

def plain (tag : String) (s : List Char) : Scalar := .styled tag.toList (.plain s)

def text (unicode : Bool) (s : Text) : Scalar := .styled "!!str".toList (.ofText unicode s)

def binaryTag : List Char := "!!binary".toList

def scalar? (unicode : Bool) : Value → Option Scalar
  | .null => some (plain "!!null" "null".toList)
  | .bool b => some (plain "!!bool" (if b then "true" else "false").toList)
  | .int i => some (plain "!!int" (Text.signedDecimal i))
  | .float x => some (plain "!!float" (floatText x))
  | .text s => some (text unicode s)
  | .bytes [] => some (.styled binaryTag (.double []))
  | .bytes b => some (.bytes (Text.Base64.encodeLines b))
  | .date d => some (plain "!!timestamp" d.text)
  | .time t => some (text unicode (Text.ofChars t.text))
  | .dateTime t => some (plain "!!timestamp" (t.text ' '))
  | .list _ | .tuple _ | .set _ | .dict _ => none

/-- Bytes show their tag, whatever their style. -/
def shownTag (tag : List Char) : List Char := if tag = binaryTag then tag ++ [' '] else []

def scalarLines (unicode : Bool) (column indent : Nat) : Scalar → List Char
  | .styled tag style =>
    let lead := shownTag tag
    lead ++ style.write unicode true (column + lead.length) indent ++ ['\n']
  | .bytes ls => "!!binary |\n".toList ++ ls.flatMap fun l => Style.pad indent ++ l ++ ['\n']

/-- The text of a key that can stand before its value: not empty, in one line, and with its tag not
too long. -/
def simpleKey? (unicode : Bool) (column : Nat) (key : Value) : Option (List Char) :=
  match scalar? unicode key with
  | some (.styled tag style) =>
    if tag.length + style.length < 128 && style.length ≠ 0 && !style.isBroken then
      some (style.write unicode false column 0)
    else none
  | _ => none

/-- Blocks one below the other at an indent; the first one stands where the text already is. -/
def stacked (indent : Nat) : List (List Char) → List Char
  | [] => []
  | b :: bs => b ++ bs.flatMap (Style.pad indent ++ ·)

def emptySequence : List Char := "[]\n".toList

def emptyMapping : List Char := "\x7b\x7d\n".toList

def setTag : List Char := "!!set".toList

def tagged (indent : Nat) (blocks : List (List Char)) : List Char :=
  if blocks.isEmpty then setTag ++ ' ' :: emptyMapping
  else setTag ++ Style.newLine indent ++ stacked indent blocks

mutual

/-- What follows a dash, or the mark of a key or a value on a line of its own. -/
def afterMark (unicode : Bool) (indent : Nat) : Value → List Char
  | .list items =>
    if items.isEmpty then emptySequence else stacked indent (itemBlocks unicode indent items)
  | .tuple items =>
    if items.isEmpty then emptySequence else stacked indent (itemBlocks unicode indent items)
  | .dict entries =>
    if entries.isEmpty then emptyMapping else stacked indent (entryBlocks unicode indent entries)
  | .set items => tagged indent (memberBlocks unicode indent items)
  | v => ((scalar? unicode v).map (scalarLines unicode indent indent)).getD []

/-- What follows a key at an indent and its colon, which end before a column. -/
def afterKey (unicode : Bool) (indent column : Nat) : Value → List Char
  | .list items =>
    if items.isEmpty then ' ' :: emptySequence
    else Style.newLine indent ++ stacked indent (itemBlocks unicode indent items)
  | .tuple items =>
    if items.isEmpty then ' ' :: emptySequence
    else Style.newLine indent ++ stacked indent (itemBlocks unicode indent items)
  | .dict entries =>
    if entries.isEmpty then ' ' :: emptyMapping
    else
      Style.newLine (indent + 2) ++ stacked (indent + 2) (entryBlocks unicode (indent + 2) entries)
  | .set items => ' ' :: tagged (indent + 2) (memberBlocks unicode (indent + 2) items)
  | v => ' ' :: ((scalar? unicode v).map (scalarLines unicode (column + 1) (indent + 2))).getD []

def itemBlocks (unicode : Bool) (indent : Nat) : List Value → List (List Char)
  | [] => []
  | v :: vs =>
    ('-' :: ' ' :: afterMark unicode (indent + 2) v) :: itemBlocks unicode indent vs

def entryBlocks (unicode : Bool) (indent : Nat) : List (Value × Value) → List (List Char)
  | [] => []
  | (k, v) :: es =>
    let entry := match simpleKey? unicode indent k with
      | some key => key ++ ':' :: afterKey unicode indent (indent + key.length + 1) v
      | none => stacked indent ['?' :: ' ' :: afterMark unicode (indent + 2) k,
          ':' :: ' ' :: afterMark unicode (indent + 2) v]
    entry :: entryBlocks unicode indent es

/-- The members of a set are keys without a value. -/
def memberBlocks (unicode : Bool) (indent : Nat) : List Value → List (List Char)
  | [] => []
  | k :: ks =>
    let member := match simpleKey? unicode indent k with
      | some key => key ++ ": null\n".toList
      | none => stacked indent ['?' :: ' ' :: afterMark unicode (indent + 2) k, ": null\n".toList]
    member :: memberBlocks unicode indent ks

end

/-- A plain scalar alone leaves the end of the document open, so it is marked. -/
def endMark : Scalar → List Char
  | .styled _ (.plain _) => "...\n".toList
  | _ => []

mutual

def depth : Value → Nat
  | .list items | .tuple items | .set items => depths items + 1
  | .dict entries => entryDepths entries + 1
  | _ => 0

def depths : List Value → Nat
  | [] => 0
  | v :: vs => max (depth v) (depths vs)

def entryDepths : List (Value × Value) → Nat
  | [] => 0
  | (k, v) :: es => max (max (depth k) (depth v)) (entryDepths es)

end

/-- The most collections that may stand one inside another. -/
def depthLimit : Nat := 327

/-- The document of a value. With `unicode`, characters beyond ASCII stand for themselves. -/
def document (unicode : Bool) (v : Value) : List Char :=
  match scalar? unicode v with
  | some s => scalarLines unicode 0 2 s ++ endMark s
  | none => afterMark unicode 0 v

def write? (unicode : Bool) (v : Value) : Option (List Char) :=
  if depth v ≤ depthLimit then some (document unicode v) else none

end SymbolRename.Yaml.Writer
