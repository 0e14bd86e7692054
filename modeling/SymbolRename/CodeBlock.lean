import SymbolRename.Identifier
import SymbolRename.Text.Blank
import SymbolRename.Text.Lines

/-!
# Code in a response

The code of a response is what stands in its first fenced block. A fence is three backticks; the
opening one may carry the letter c and must end its line, and the block is closed by the first fence
at the start of a line. A response without such a block is read line by line: the code runs from
the first line that opens a brace or calls something to the first line that only closes a brace.
-/

set_option autoImplicit false

namespace SymbolRename.CodeBlock
open Text

def fence : Text := "\x60\x60\x60"

/-- The text before the first line that starts with a fence; its line feed is no part of it. -/
def bodyBefore? : Text → Option Text
  | [] => none
  | c :: s =>
    if c = '\n' && fence.isPrefixOf s then some [] else (bodyBefore? s).map (c :: ·)

/-- What follows each line feed of the blanks that a text starts with, the last line feed first. -/
def afterFeeds : Text → List Text
  | [] => []
  | c :: s =>
    if isBlank c then afterFeeds s ++ (if c = '\n' then [s] else []) else []

def dropLanguage : Text → Text
  | .char 'c' :: s => s
  | s => s

/-- The body of the block that opens at the start of a text: as many blanks as possible belong to
the opening fence, and the body is as short as possible. -/
def bodyAt? (s : Text) : Option Text := do
  let rest ← fence.isPrefixOf? s
  (afterFeeds (dropLanguage rest)).findSome? bodyBefore?

def fenced? : Text → Option Text
  | [] => none
  | c :: s => (bodyAt? (c :: s)).or (fenced? s)

/-- A name, perhaps blanks, and an opening parenthesis. -/
def isCallHead (line : Text) : Bool :=
  match Identifier.lead? line with
  | some (_, rest) => (trimStart rest).head? = some (.char '(')
  | none => false

def opens (line : Text) : Bool :=
  (trim line).contains (.char '\x7b') || isCallHead (trim line)

def closes (line : Text) : Bool := trim line = "\x7d"

def throughClose : List Text → List Text
  | [] => []
  | l :: ls => if closes l then [l] else l :: throughClose ls

def bare (ls : List Text) : List Text := throughClose (ls.dropWhile (!opens ·))

def terminated (ls : List Text) : Text := ls.flatMap (· ++ "\n")

def extract (response : Text) : Text :=
  match fenced? response with
  | some body => body
  | none => terminated (bare (lines response))

end SymbolRename.CodeBlock
