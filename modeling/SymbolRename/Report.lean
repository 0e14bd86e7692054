import SymbolRename.Directive
import SymbolRename.Text.Numeral
import SymbolRename.Value.Shown

/-!
# Reports

What a pass over a function prints: a heading with a rule under it, how many directives there were
and how many were carried out, an empty line, and one line for each directive.
-/

set_option autoImplicit false

namespace SymbolRename.Report

def defaultWidth : Int := 50

def number (i : Int) : Text := Text.ofChars (Text.signedDecimal i)

def line (d : Directive) : Text :=
  "• " ++ d.oldName ++ " → " ++ d.newName ++
    (if d.reason.isEmpty then [] else " (" ++ d.reason ++ ")")

inductive Fault where
  /-- No text can be so long. -/
  | tooWide
  /-- The width does not even fit a machine word. -/
  | beyondWord
deriving DecidableEq

def widest : Int := 0x100000000

/-- A rule under a heading; a width that is not positive leaves it empty. -/
def rule (width : Int) : Except Fault Text :=
  if width < -0x8000000000000000 || 0x8000000000000000 ≤ width then .error .beyondWord
  else if widest < width then .error .tooWide
  else .ok (List.replicate width.toNat '=')

def header (functionName rule : Text) (total applied : Int) : List Text :=
  ["Suggestion Report for " ++ functionName, rule, "Total suggestions: " ++ number total,
    "Successfully applied: " ++ number applied, []]

def render (functionName : Text) (directives : List Directive) (applied width : Int) :
    Except Fault Text := do
  let header := header functionName (← rule width) directives.length applied
  return (header ++ directives.map line).flatMap (· ++ "\n")

inductive Failure where
  | rule (f : Fault)
  /-- The count has more digits than a number is written with. -/
  | countTooLong
deriving DecidableEq

/-- The report with a given count. A count of directives can always be written; one that is given
may be too long for it. -/
def make (functionName : Text) (directives : List Directive) (count width : Int) :
    Except Failure Text := do
  let report ← (render functionName directives count width).mapError .rule
  if Value.isTooLong count then throw .countTooLong
  return report

end SymbolRename.Report
