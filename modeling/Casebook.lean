import Casebook.CommandLine.Arguments
import Casebook.CommandLine.Display
import Casebook.CommandLine.Session
import Casebook.Composition.Composer
import Casebook.Composition.Loading
import Casebook.Composition.Validation
import Casebook.Configuration
import Casebook.Context.Arguments
import Casebook.Context.Builtin
import Casebook.Context.Evaluation
import Casebook.Context.Store
import Casebook.Context.Verb
import Casebook.Decimal.Reading
import Casebook.Decimal.Shortest
import Casebook.Definition.Action
import Casebook.Definition.Block
import Casebook.Definition.Case
import Casebook.Definition.Document
import Casebook.Definition.Fragment
import Casebook.Definition.Source
import Casebook.Definition.Step
import Casebook.Dict
import Casebook.Error
import Casebook.Files.Path
import Casebook.Files.Tree
import Casebook.Json.Printer
import Casebook.Json.Reader
import Casebook.Main
import Casebook.Number
import Casebook.Pattern.Basic
import Casebook.Pattern.Bracketed
import Casebook.Pattern.Escape
import Casebook.Pattern.Machine
import Casebook.Pattern.NamedSet
import Casebook.Pattern.Parser
import Casebook.Pattern.Reader
import Casebook.Pattern.Regex
import Casebook.Pattern.Size
import Casebook.Pattern.Utf8
import Casebook.Proofs.Composition.CacheKey
import Casebook.Proofs.Composition.Closure
import Casebook.Proofs.Composition.Declarations
import Casebook.Proofs.Composition.Expansion
import Casebook.Proofs.Composition.History
import Casebook.Proofs.Composition.Index
import Casebook.Proofs.Composition.LoadErrors
import Casebook.Proofs.Composition.Merging
import Casebook.Proofs.Composition.Names
import Casebook.Proofs.Composition.Nesting
import Casebook.Proofs.Composition.ReadingErrors
import Casebook.Proofs.Composition.Recovery
import Casebook.Proofs.Composition.Soundness
import Casebook.Proofs.Composition.Validity
import Casebook.Proofs.Computation
import Casebook.Proofs.Context.Binding
import Casebook.Proofs.Context.CallDepth
import Casebook.Proofs.Context.CallOrder
import Casebook.Proofs.Context.Counters
import Casebook.Proofs.Context.Deferred
import Casebook.Proofs.Context.Frames
import Casebook.Proofs.Context.Integers
import Casebook.Proofs.Context.Interpolation
import Casebook.Proofs.Context.Invocations
import Casebook.Proofs.Context.Limits
import Casebook.Proofs.Context.Looking
import Casebook.Proofs.Context.Nesting
import Casebook.Proofs.Context.Placeholders
import Casebook.Proofs.Context.ReadSet
import Casebook.Proofs.Context.Reading
import Casebook.Proofs.Context.Shape
import Casebook.Proofs.Context.Writes
import Casebook.Proofs.Decimal.Range
import Casebook.Proofs.Definition.BlockOrder
import Casebook.Proofs.Definition.StepMaps
import Casebook.Proofs.Dictionary
import Casebook.Proofs.Files.Discovery
import Casebook.Proofs.Files.Locations
import Casebook.Proofs.Fragment.Binding
import Casebook.Proofs.Fragment.Bodies
import Casebook.Proofs.Fragment.Fields
import Casebook.Proofs.Fragment.Keywords
import Casebook.Proofs.Fragment.QuotedArguments
import Casebook.Proofs.Fragment.WholeArguments
import Casebook.Proofs.Run.Independence
import Casebook.Proofs.Run.Operations
import Casebook.Proofs.Run.Recordings
import Casebook.Proofs.Run.Reports
import Casebook.Proofs.Run.Snapshots
import Casebook.Proofs.Run.Steps
import Casebook.Proofs.Run.Traces
import Casebook.Proofs.Run.Verdict
import Casebook.Proofs.Template.Acceptance
import Casebook.Proofs.Template.Agreement
import Casebook.Proofs.Template.Bounds
import Casebook.Proofs.Template.Bracing
import Casebook.Proofs.Template.CallDepth
import Casebook.Proofs.Template.Calls
import Casebook.Proofs.Template.Canonical
import Casebook.Proofs.Template.Cursor
import Casebook.Proofs.Template.Cutting
import Casebook.Proofs.Template.Deepening
import Casebook.Proofs.Template.Delimiting
import Casebook.Proofs.Template.Derivation
import Casebook.Proofs.Template.Deriving
import Casebook.Proofs.Template.Division
import Casebook.Proofs.Template.Extent
import Casebook.Proofs.Template.FilledCalls
import Casebook.Proofs.Template.Filling
import Casebook.Proofs.Template.Grammar
import Casebook.Proofs.Template.Hidden
import Casebook.Proofs.Template.Joining
import Casebook.Proofs.Template.Literals
import Casebook.Proofs.Template.Nested
import Casebook.Proofs.Template.Outcomes
import Casebook.Proofs.Template.PlainText
import Casebook.Proofs.Template.Printing
import Casebook.Proofs.Template.References
import Casebook.Proofs.Template.Refilling
import Casebook.Proofs.Template.Renaming
import Casebook.Proofs.Template.Room
import Casebook.Proofs.Template.RoundTrip
import Casebook.Proofs.Template.Stepping
import Casebook.Proofs.Template.Suitable
import Casebook.Proofs.Template.Unambiguity
import Casebook.Proofs.Template.Wording
import Casebook.Proofs.Template.Words
import Casebook.Proofs.Text.Blanks
import Casebook.Proofs.Text.Scanning
import Casebook.Proofs.Text.Splitting
import Casebook.Proofs.Text.Trimming
import Casebook.Proofs.Value.Ordered
import Casebook.Proofs.Value.Paths
import Casebook.Proofs.Value.Shape
import Casebook.Proofs.Value.Texts
import Casebook.Run.Executor
import Casebook.Run.Pipeline
import Casebook.Run.Report
import Casebook.Run.Runner
import Casebook.Run.Trace
import Casebook.Template.Basic
import Casebook.Template.Literal
import Casebook.Template.Parser
import Casebook.Template.Substitution
import Casebook.Text.Blank
import Casebook.Text.FileName
import Casebook.Text.Quoted
import Casebook.Text.Split
import Casebook.Text.Word
import Casebook.Toml.Document
import Casebook.Toml.Scalar
import Casebook.Toml.Text
import Casebook.Unicode.Age
import Casebook.Unicode.Casing
import Casebook.Unicode.Category
import Casebook.Unicode.CharSet
import Casebook.Unicode.Emoji
import Casebook.Unicode.Folding
import Casebook.Unicode.Grapheme
import Casebook.Unicode.Identifier
import Casebook.Unicode.Ideograph
import Casebook.Unicode.Letter
import Casebook.Unicode.Lookup
import Casebook.Unicode.Mark
import Casebook.Unicode.Numeric
import Casebook.Unicode.Property
import Casebook.Unicode.Punctuation
import Casebook.Unicode.Recent
import Casebook.Unicode.Script
import Casebook.Unicode.ScriptExtension
import Casebook.Unicode.Segmentation
import Casebook.Unicode.Separator
import Casebook.Unicode.Symbol
import Casebook.Value.Basic
import Casebook.Value.Path
import Casebook.Value.Rendering
import Casebook.Yaml.Document
import Casebook.Yaml.Glyph
import Casebook.Yaml.Lexer
import Casebook.Yaml.Node
import Casebook.Yaml.Scalar
import Casebook.Yaml.Token
import Casebook.Yaml.Typing
