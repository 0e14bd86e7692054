import SymbolRename.Batch
import SymbolRename.Calendar
import SymbolRename.CodeBlock
import SymbolRename.Command.Arguments
import SymbolRename.Command.Ended
import SymbolRename.Command.Run
import SymbolRename.Command.Terminal
import SymbolRename.Config
import SymbolRename.Decimal.Binary
import SymbolRename.Decimal.Digits
import SymbolRename.Decimal.Notation
import SymbolRename.Decimal.Reading
import SymbolRename.Directive
import SymbolRename.Document
import SymbolRename.Document.File
import SymbolRename.Entries
import SymbolRename.Fault
import SymbolRename.Files.Path
import SymbolRename.Files.Tree
import SymbolRename.Fixture.Recorder
import SymbolRename.Fixture.Sample
import SymbolRename.Fixture.Script
import SymbolRename.Fixture.Workspace
import SymbolRename.Function
import SymbolRename.Identifier
import SymbolRename.Json.Reader
import SymbolRename.Json.Writer
import SymbolRename.Log
import SymbolRename.Main
import SymbolRename.Message.Catalog
import SymbolRename.Message.Key
import SymbolRename.Message.Packaged
import SymbolRename.Notice
import SymbolRename.Pass
import SymbolRename.Project
import SymbolRename.Proofs.Batch.Calls
import SymbolRename.Proofs.Batch.Carry
import SymbolRename.Proofs.Batch.Kept
import SymbolRename.Proofs.Batch.Order
import SymbolRename.Proofs.Batch.Reference
import SymbolRename.Proofs.Batch.Settled
import SymbolRename.Proofs.Batch.Undo
import SymbolRename.Proofs.CodeBlock.Blocks
import SymbolRename.Proofs.CodeBlock.Scanner
import SymbolRename.Proofs.CodeBlock.Search
import SymbolRename.Proofs.CodeBlock.Slice
import SymbolRename.Proofs.Command.Apply
import SymbolRename.Proofs.Command.DryRun
import SymbolRename.Proofs.Command.Keeping
import SymbolRename.Proofs.Command.Listing
import SymbolRename.Proofs.Command.Loading
import SymbolRename.Proofs.Command.Options
import SymbolRename.Proofs.Command.Output
import SymbolRename.Proofs.Config
import SymbolRename.Proofs.Config.Settings
import SymbolRename.Proofs.Directive.Grammar
import SymbolRename.Proofs.Directive.Parts
import SymbolRename.Proofs.Directive.Printing
import SymbolRename.Proofs.Document.File
import SymbolRename.Proofs.Document.Outcome
import SymbolRename.Proofs.Document.RoundTrip
import SymbolRename.Proofs.Document.Saving
import SymbolRename.Proofs.Document.Stored
import SymbolRename.Proofs.Document.Violations
import SymbolRename.Proofs.Entries
import SymbolRename.Proofs.Files.Agreement
import SymbolRename.Proofs.Files.Limits
import SymbolRename.Proofs.Files.Order
import SymbolRename.Proofs.Files.Overwrite
import SymbolRename.Proofs.Files.Tree
import SymbolRename.Proofs.Function.First
import SymbolRename.Proofs.Function.History
import SymbolRename.Proofs.Function.Names
import SymbolRename.Proofs.Function.Places
import SymbolRename.Proofs.Identifier
import SymbolRename.Proofs.Json.Steps
import SymbolRename.Proofs.Message.Addresses
import SymbolRename.Proofs.Message.Definitions
import SymbolRename.Proofs.Message.Flattening
import SymbolRename.Proofs.Message.History
import SymbolRename.Proofs.Message.Languages
import SymbolRename.Proofs.Message.Layers
import SymbolRename.Proofs.Message.Leaves
import SymbolRename.Proofs.Message.Packaged
import SymbolRename.Proofs.Message.Rendering
import SymbolRename.Proofs.Message.Skipped
import SymbolRename.Proofs.Pass.Heard
import SymbolRename.Proofs.Pass.Symbols
import SymbolRename.Proofs.Pass.Told
import SymbolRename.Proofs.Project
import SymbolRename.Proofs.Report.Reading
import SymbolRename.Proofs.Task
import SymbolRename.Proofs.Template.Direct
import SymbolRename.Proofs.Text.Breaks
import SymbolRename.Proofs.Text.Encodable
import SymbolRename.Proofs.Text.Lines
import SymbolRename.Proofs.Text.Numeral
import SymbolRename.Proofs.Text.Taking
import SymbolRename.Proofs.Text.Trim
import SymbolRename.Proofs.Text.Utf8
import SymbolRename.Proofs.Toml.Reading
import SymbolRename.Proofs.Toml.Steps
import SymbolRename.Proofs.Value.Shown
import SymbolRename.Proofs.World.Frame
import SymbolRename.Proofs.World.Wording
import SymbolRename.Proofs.Yaml.Lexer
import SymbolRename.Proofs.Yaml.Making
import SymbolRename.Proofs.Yaml.Merge
import SymbolRename.Proofs.Yaml.Node
import SymbolRename.Proofs.Yaml.Object
import SymbolRename.Proofs.Yaml.Safe
import SymbolRename.Proofs.Yaml.Scan
import SymbolRename.Proofs.Yaml.Supply
import SymbolRename.Proofs.Yaml.Written
import SymbolRename.Report
import SymbolRename.Task
import SymbolRename.Template
import SymbolRename.Template.Argument
import SymbolRename.Template.Kind
import SymbolRename.Template.Layout
import SymbolRename.Template.Member
import SymbolRename.Template.Objects
import SymbolRename.Template.Presentation
import SymbolRename.Template.Written
import SymbolRename.Text
import SymbolRename.Text.Base64
import SymbolRename.Text.Blank
import SymbolRename.Text.Digit
import SymbolRename.Text.Indent
import SymbolRename.Text.Lines
import SymbolRename.Text.Numeral
import SymbolRename.Text.Printable
import SymbolRename.Text.Quoted
import SymbolRename.Text.Utf8
import SymbolRename.Toml.Quoted
import SymbolRename.Toml.Reader
import SymbolRename.Toml.Scalar
import SymbolRename.Toml.Table
import SymbolRename.Toml.Writer
import SymbolRename.Value
import SymbolRename.Value.Shown
import SymbolRename.Value.Slots
import SymbolRename.World
import SymbolRename.Yaml.Content
import SymbolRename.Yaml.Lexer
import SymbolRename.Yaml.Merge
import SymbolRename.Yaml.Node
import SymbolRename.Yaml.Object
import SymbolRename.Yaml.Scalar
import SymbolRename.Yaml.Style
import SymbolRename.Yaml.Supply
import SymbolRename.Yaml.Tag
import SymbolRename.Yaml.Token
import SymbolRename.Yaml.Writer
