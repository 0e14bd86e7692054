import SymbolRename.Files.Tree
import SymbolRename.Json.Writer
import SymbolRename.Text.Utf8

/-!
# Packaged messages

The templates that come with the program, all of them in English, as a tree of message files of its
own.
-/

set_option autoImplicit false

namespace SymbolRename.Message.Packaged

def applyMessages : List (String × String) :=
  [("apply.run.parsed", "Parsed \x7bcount\x7d rename suggestion(s) for \x7bfunction\x7d."),
    ("apply.run.no_directives", "No usable rename suggestions found for \x7bfunction\x7d."),
    ("apply.run.summary",
      "Applied \x7bapplied\x7d/\x7btotal\x7d suggestion(s) to \x7bfunction\x7d."),
    ("apply.run.partial",
      "\x7brejected\x7d suggestion(s) for \x7bfunction\x7d were rejected by the program model."),
    ("apply.rename.rejected",
      "Could not apply suggestion: \x7bold_name\x7d -> \x7bnew_name\x7d (\x7breason\x7d)"),
    ("apply.rename.skipped",
      "No symbol named \x27\x7bold_name\x7d\x27 in \x7bfunction\x7d; skipped."),
    ("apply.document.saved", "Saved renamed function to \x7bpath\x7d."),
    ("apply.document.unchanged", "\x7bpath\x7d is already up to date."),
    ("apply.document.dry_run", "Dry run: \x7bpath\x7d was not modified.")]

def commandMessages : List (String × String) :=
  [("cli.app.description",
      "Parse model rename suggestions and apply them to decompiled functions."),
    ("cli.command.apply.help", "Apply the rename suggestions in RESPONSE to a function document."),
    ("cli.command.parse.help", "List the rename suggestions found in RESPONSE."),
    ("cli.command.extract.help", "Print the code block contained in RESPONSE."),
    ("cli.command.check.help", "Check whether each NAME is a valid C identifier."),
    ("cli.argument.response.help",
      "File holding the model response, or \x27-\x27 to read stdin."),
    ("cli.argument.names.help", "Identifiers to check."),
    ("cli.option.verbose.help", "Show debug messages."),
    ("cli.option.function.help", "YAML document describing the function to rename."),
    ("cli.option.dry_run.help", "Show what would change without saving the function document."),
    ("cli.option.no_report.help", "Do not print the suggestion report.")]

def errorMessages : List (String × String) :=
  [("error.generic", "Error: \x7berror\x7d"),
    ("error.document", "Invalid function document \x7bpath\x7d: \x7berror\x7d")]

def previewMessages : List (String × String) :=
  [("parse.directive", "\x7bold_name\x7d -> \x7bnew_name\x7d"),
    ("parse.directive_with_reason", "\x7bold_name\x7d -> \x7bnew_name\x7d: \x7breason\x7d"),
    ("parse.summary", "Found \x7bcount\x7d rename suggestion(s)."),
    ("parse.none", "No rename suggestions found."),
    ("extract.none", "No code block found in the response."),
    ("check.valid", "\x27\x7bname\x7d\x27 is a valid identifier."),
    ("check.invalid", "\x27\x7bname\x7d\x27 is not a valid C identifier.")]

def file (messages : List (String × String)) : Files.Node :=
  .file (Text.Utf8.encode (Json.write (.dict (messages.map fun m => (.text ↑m.1, .text ↑m.2)))))

def tree : Files.Tree :=
  ⟨[(["needle"], .directory), (["needle", "en"], .directory),
    (["needle", "en", "apply.json"], file applyMessages),
    (["needle", "en", "cli.json"], file commandMessages),
    (["needle", "en", "error.json"], file errorMessages),
    (["needle", "en", "preview.json"], file previewMessages)]⟩

end SymbolRename.Message.Packaged
