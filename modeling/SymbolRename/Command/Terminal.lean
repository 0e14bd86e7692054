import SymbolRename.World

/-!
# The terminal

Where the journal of a command is shown. Reports, code, and messages of success and information go
to standard output; warnings, errors and what is noted down go to standard error. What helps to find
errors shows only if the user asks for it. Control sequences for colours and the like are taken out
of all that is printed.
-/

set_option autoImplicit false

namespace SymbolRename.Terminal

/-- A control sequence after its escape character: a bracket, digits and marks, and a letter. -/
def afterSequence? : Text → Option Text
  | .char '[' :: s =>
    match s.dropWhile (Code.passes fun c => c = ';' || c = '?' || c.isDigit) with
    | c :: rest => if c.passes Char.isAlpha then some rest else none
    | [] => none
  | _ => none

/-- A text without control sequences; the first argument bounds its length. -/
def stripFrom : Nat → Text → Text
  | 0, s => s
  | _, [] => []
  | fuel + 1, c :: s =>
    if c.toNat = 0x1B then
      match afterSequence? s with
      | some rest => stripFrom fuel rest
      | none => c :: stripFrom fuel s
    else c :: stripFrom fuel s

def strip (s : Text) : Text := stripFrom s.length s

def isShown (verbose : Bool) (level : Level) : Bool := verbose || level ≠ .debug

def outputText : Event → Text
  | .message level text => if level.isOutput then strip text ++ "\n" else []
  | .print text => strip text
  | .recorded _ => []
  | .log _ => []

def errorText (verbose : Bool) : Event → Text
  | .message level text =>
    if !level.isOutput && isShown verbose level then strip text ++ "\n" else []
  | .log l => if verbose || l.severity ≠ .debug then l.line ++ "\n" else []
  | .print _ => []
  | .recorded _ => []

def output (journal : List Event) : List Char :=
  (Text.chars? (journal.flatMap outputText)).getD []

/-- A code point as standard error shows it, which cannot fail. -/
def errorChars : Code → List Char
  | .char c => [c]
  | .half n => Text.codeEscape (Code.half n).toNat

def errors (verbose : Bool) (journal : List Event) : List Char :=
  (journal.flatMap (errorText verbose)).flatMap errorChars

end SymbolRename.Terminal
