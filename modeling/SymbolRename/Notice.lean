import SymbolRename.Template
import SymbolRename.Template.Argument

/-!
# Notices

What the program tells its user: a message by its key, how much it matters, and the arguments for
its template.
-/

set_option autoImplicit false

namespace SymbolRename

inductive Level where
  | debug
  | info
  | success
  | warning
  | error
deriving DecidableEq

def Level.name : Level → Text
  | .debug => "debug"
  | .info => "info"
  | .success => "success"
  | .warning => "warning"
  | .error => "error"

def Level.isOutput : Level → Bool
  | .info | .success => true
  | .debug | .warning | .error => false

structure Notice where
  level : Level
  key : Text
  arguments : List (Text × Template.Argument)

namespace Notice
open Template.Argument

def parsed (n : Nat) (function : Text) : Notice :=
  ⟨.debug, "apply.run.parsed", [("count", count n), ("function", text function)]⟩

def noDirectives (function : Text) : Notice :=
  ⟨.warning, "apply.run.no_directives", [("function", text function)]⟩

def skipped (old function : Text) : Notice :=
  ⟨.debug, "apply.rename.skipped", [("old_name", text old), ("function", text function)]⟩

def rejected (old new reason : Text) : Notice :=
  ⟨.warning, "apply.rename.rejected",
    [("old_name", text old), ("new_name", text new), ("reason", text reason)]⟩

def partly (rejected : Nat) (function : Text) : Notice :=
  ⟨.warning, "apply.run.partial", [("rejected", count rejected), ("function", text function)]⟩

def summary (applied total : Nat) (function : Text) : Notice :=
  ⟨.success, "apply.run.summary",
    [("applied", count applied), ("total", count total), ("function", text function)]⟩

def dryRun (p : Files.Path) : Notice := ⟨.info, "apply.document.dry_run", [("path", path p)]⟩

def saved (p : Files.Path) : Notice := ⟨.info, "apply.document.saved", [("path", path p)]⟩

def unchanged (p : Files.Path) : Notice := ⟨.debug, "apply.document.unchanged", [("path", path p)]⟩

def badDocument (p : Files.Path) (error : Text) : Notice :=
  ⟨.error, "error.document", [("path", path p), ("error", text error)]⟩

def failure (error : Text) : Notice := ⟨.error, "error.generic", [("error", text error)]⟩

def nothingParsed : Notice := ⟨.warning, "parse.none", []⟩

def directive (old new : Text) : Notice :=
  ⟨.info, "parse.directive", [("old_name", text old), ("new_name", text new)]⟩

def directiveWithReason (old new reason : Text) : Notice :=
  ⟨.info, "parse.directive_with_reason",
    [("old_name", text old), ("new_name", text new), ("reason", text reason)]⟩

def parseSummary (n : Nat) : Notice := ⟨.success, "parse.summary", [("count", count n)]⟩

def noCode : Notice := ⟨.error, "extract.none", []⟩

def validName (name : Text) : Notice := ⟨.success, "check.valid", [("name", text name)]⟩

def invalidName (name : Text) : Notice := ⟨.error, "check.invalid", [("name", text name)]⟩

end Notice
end SymbolRename
