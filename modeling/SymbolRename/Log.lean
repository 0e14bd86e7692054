import SymbolRename.Text

/-!
# Log entries

What the program notes down for whoever looks after it, beside the messages to its user.
-/

set_option autoImplicit false

namespace SymbolRename

inductive Severity where
  | debug
  | warning
deriving DecidableEq

def Severity.name : Severity → String
  | .debug => "DEBUG"
  | .warning => "WARNING"

inductive LogSource where
  | configuration
  | messages
  | yaml
  | document
deriving DecidableEq

def LogSource.name : LogSource → String
  | .configuration => "namesmith.config.loader"
  | .messages => "namesmith.needle.loader"
  | .yaml => "namesmith.common.adapters.yaml_adapter"
  | .document => "namesmith.adapter.document"

structure Log where
  severity : Severity
  source : LogSource
  text : Text
deriving DecidableEq

def Log.line (l : Log) : Text := l.severity.name ++ ":" ++ l.source.name ++ ":" ++ l.text

end SymbolRename
