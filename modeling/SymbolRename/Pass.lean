import SymbolRename.Batch
import SymbolRename.Report

/-!
# Passes

One pass over a function: the directives of a response are parsed and carried out, the user is told
how it went, and a report is made.
-/

set_option autoImplicit false

namespace SymbolRename

structure Pass where
  functionName : Text
  directives : List Directive
  record : Batch.Record
  report : Text

namespace Pass

def opening (function : Text) (ds : List Directive) : List Notice :=
  .parsed ds.length function :: if ds.isEmpty then [.noDirectives function] else []

def closing (function : Text) (ds : List Directive) (r : Batch.Record) : List Notice :=
  (if r.diagnostics.isEmpty then [] else [.partly r.diagnostics.length function]) ++
    if ds.isEmpty then [] else [.summary r.applied.length ds.length function]

def run {σ ε ρ : Type} (h : Host σ ε ρ) (tell : Notice → Task σ ε Unit)
    (badWidth : Report.Fault → ε) (response : Text) (width : Int) : Task σ ε Pass := do
  let function := h.functionName (← get)
  let ds := Directive.parse response
  (opening function ds).forM tell
  let record ← Batch.apply h tell ds
  (closing function ds record).forM tell
  let report ← Task.orFault badWidth (Report.render function ds record.applied.length width)
  return ⟨function, ds, record, report⟩

end Pass
end SymbolRename
