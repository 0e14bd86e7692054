import SymbolRename.Files.Tree

/-!
# Command lines

What the program is asked to do: one of four commands, with options. The options of the program
stand before the command; those of a command stand anywhere after it, and two hyphens end them. A
long option may have its value behind an equals sign, a short one right behind its letter; letters
without a value may share one hyphen. Nothing is said here about help and about completing command
lines: asking for them, or for nothing at all, counts as malformed.
-/

set_option autoImplicit false

namespace SymbolRename
open Files

inductive Command where
  | apply (response : Text) (function : Path) (dryRun noReport : Bool)
  | parse (response : Text)
  | extract (response : Text)
  | check (names : List Text)

structure Invocation where
  verbose : Bool
  command : Command

namespace CommandLine

inductive Fault where
  | malformed
  /-- The path of a file cannot be looked at. -/
  | file (f : Files.Fault)

structure Flag where
  long : Text
  letter : Option Char
  takesValue : Bool

structure Words where
  options : List (Text × Text)
  words : List Text

def Words.hasOption (w : Words) (long : Text) : Bool := w.options.any (·.1 = long)

def Words.value? (w : Words) (long : Text) : Option Text :=
  (w.options.reverse.find? (·.1 = long)).map (·.2)

/-- The options that one argument holds; the last one may want the next argument as its value. -/
structure Found where
  options : List (Text × Text)
  pending : Option Text

def readLong (flags : List Flag) (s : Text) : Option Found := do
  let name := s.takeWhile (· ≠ .char '=')
  let flag ← flags.find? (·.long = name)
  match s.dropWhile (· ≠ .char '='), flag.takesValue with
  | [], true => some ⟨[], some name⟩
  | _ :: value, true => some ⟨[(name, value)], none⟩
  | [], false => some ⟨[(name, [])], none⟩
  | _ :: _, false => none

def readLetters (flags : List Flag) : Text → Option Found
  | [] => some ⟨[], none⟩
  | c :: s => do
    let flag ← flags.find? (·.letter.map Code.char = some c)
    if flag.takesValue then
      if s.isEmpty then some ⟨[], some flag.long⟩ else some ⟨[(flag.long, s)], none⟩
    else
      let found ← readLetters flags s
      some { found with options := (flag.long, []) :: found.options }

def readOption (flags : List Flag) (arg : Text) : Option Found :=
  match arg with
  | .char '-' :: .char '-' :: s => readLong flags s
  | _ => readLetters flags arg.tail

/-- A lone hyphen is a word. -/
def isOption (arg : Text) : Bool := arg.head? = some (.char '-') && arg ≠ "-"

/-- Tells options and words apart; if they do not mix, the first word ends the options. -/
def read (flags : List Flag) (mixed : Bool) : List Text → Option Words
  | [] => some ⟨[], []⟩
  | arg :: args =>
    if arg = "--" then some ⟨[], args⟩
    else if isOption arg then do
      let found ← readOption flags arg
      match found.pending with
      | none =>
        let w ← read flags mixed args
        some { w with options := found.options ++ w.options }
      | some name =>
        match args with
        | [] => none
        | value :: args =>
          let w ← read flags mixed args
          some { w with options := found.options ++ (name, value) :: w.options }
    else if mixed then do
      let w ← read flags mixed args
      some { w with words := arg :: w.words }
    else some ⟨[], arg :: args⟩

def programFlags : List Flag := [⟨"verbose", some 'v', false⟩]

def applyFlags : List Flag :=
  [⟨"function", some 'f', true⟩, ⟨"dry-run", none, false⟩, ⟨"no-report", none, false⟩]

/-- A path that ends as for a directory. -/
def endsAsDirectory (text : Text) : Bool :=
  let last := (Text.splitAt '/' text).getLast?
  last = some [] || last = some "."

def existingFile (t : Tree) (here : Place) (text : Text) : Except Fault Path :=
  let p := Path.ofText text
  match t.find here p with
  | .ok (.file _ _) => if endsAsDirectory text then .error .malformed else .ok p
  | .error (.impossible p) => .error (.file (.impossible p))
  | _ => .error .malformed

def orMalformed {α : Type} : Option α → Except Fault α
  | some a => .ok a
  | none => .error .malformed

def single : List Text → Except Fault Text
  | [w] => .ok w
  | _ => .error .malformed

def command (t : Tree) (here : Place) (name : Text) (args : List Text) : Except Fault Command := do
  if name = "apply" then
    let w ← orMalformed (read applyFlags true args)
    let function ← existingFile t here (← orMalformed (w.value? "function"))
    return .apply (← single w.words) function (w.hasOption "dry-run") (w.hasOption "no-report")
  else
    let w ← orMalformed (read [] true args)
    if name = "parse" then return .parse (← single w.words)
    else if name = "extract" then return .extract (← single w.words)
    else if name = "check" && !w.words.isEmpty then return .check w.words
    else throw .malformed

end CommandLine

def Invocation.ofArguments (t : Tree) (here : Place) (args : List Text) :
    Except CommandLine.Fault Invocation := do
  let w ← CommandLine.orMalformed (CommandLine.read CommandLine.programFlags false args)
  match w.words with
  | [] => throw .malformed
  | name :: args => return ⟨w.hasOption "verbose", ← CommandLine.command t here name args⟩

end SymbolRename
