import SymbolRename.Command.Run
import SymbolRename.Command.Terminal

/-!
# How the program ends

What a command line leads to: what stands on standard output and on standard error in the end, the
exit code, and the files.
-/

set_option autoImplicit false

namespace SymbolRename.Program
open Files

structure Ended where
  output : List Char
  errors : List Char
  code : Nat
  files : Tree

def usage : String :=
  "Usage: [-v] apply RESPONSE -f DOCUMENT [--dry-run] [--no-report]\n" ++
    "       [-v] parse RESPONSE | extract RESPONSE | check NAME..."

def faultText : Text := "The command was stopped by a fault."

def lastWords (message : Text) : List Char := (message ++ "\n").flatMap Terminal.errorChars

def perform (w : World) (input : List UInt8) (i : Invocation) : Ended :=
  let (result, after) := (Command.run input i.command).run w
  let output := Terminal.output after.journal
  let errors := Terminal.errors i.verbose after.journal
  match result with
  | .ok code => ⟨output, errors, code, after.files⟩
  | .error f => ⟨output, errors ++ lastWords (f.message?.getD faultText), 1, after.files⟩

def run (files : Tree) (here : Place) (language : Option Text) (args : List Text)
    (input : List UInt8) : Ended :=
  match Command.surroundings files here language, Invocation.ofArguments files here args with
  | .ok w, .ok i => perform w input i
  | _, .error .malformed => ⟨[], lastWords usage, 2, files⟩
  | _, _ => ⟨[], lastWords faultText, 1, files⟩

end SymbolRename.Program
