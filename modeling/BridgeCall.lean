import BridgeCall.Bridge.Marshal
import BridgeCall.Bridge.Recorder
import BridgeCall.Bridge.Request
import BridgeCall.Bridge.Value
import BridgeCall.Command.Flag
import BridgeCall.Command.Line
import BridgeCall.Command.Run
import BridgeCall.Command.Table
import BridgeCall.Command.Usage
import BridgeCall.Editor.Json
import BridgeCall.Editor.Request
import BridgeCall.Editor.Server
import BridgeCall.Editor.Session
import BridgeCall.Editor.Uri
import BridgeCall.Editor.Words
import BridgeCall.Expr.Call
import BridgeCall.Expr.ClassPath
import BridgeCall.Expr.Fault
import BridgeCall.Expr.Grammar
import BridgeCall.Expr.Lexer
import BridgeCall.Expr.Parse
import BridgeCall.Expr.Position
import BridgeCall.Expr.Reader
import BridgeCall.Expr.Token
import BridgeCall.Expr.Types
import BridgeCall.Files.Path
import BridgeCall.Files.Tree
import BridgeCall.Host.Columns
import BridgeCall.Host.Constraint
import BridgeCall.Host.DocInline
import BridgeCall.Host.DocText
import BridgeCall.Host.Imports.Basic
import BridgeCall.Host.Imports.Edit
import BridgeCall.Host.Imports.Sort
import BridgeCall.Host.Lexeme
import BridgeCall.Host.Lexer
import BridgeCall.Host.LineMark
import BridgeCall.Host.Parse
import BridgeCall.Host.Parse.Basic
import BridgeCall.Host.Parse.Decls
import BridgeCall.Host.Parse.Exprs
import BridgeCall.Host.Parse.Stmts
import BridgeCall.Host.Parse.Types
import BridgeCall.Host.Print
import BridgeCall.Host.Print.Comments
import BridgeCall.Host.Print.Decls
import BridgeCall.Host.Print.Exprs
import BridgeCall.Host.Print.Lists
import BridgeCall.Host.Print.Sheet
import BridgeCall.Host.Print.Stmts
import BridgeCall.Host.Report
import BridgeCall.Host.Scope
import BridgeCall.Host.Tree
import BridgeCall.Host.Walk
import BridgeCall.Machine.ClassFile
import BridgeCall.Machine.Descriptor
import BridgeCall.Machine.ModifiedUtf8
import BridgeCall.Machine.Symbol
import BridgeCall.Main
import BridgeCall.Marker.Call
import BridgeCall.Marker.Diagnostic
import BridgeCall.Marker.Generate
import BridgeCall.Marker.Rewrite
import BridgeCall.Marker.Scan
import BridgeCall.Number.Binary
import BridgeCall.Number.Integer
import BridgeCall.Number.Rounded
import BridgeCall.Plan.Basic
import BridgeCall.Plan.Code
import BridgeCall.Plan.Expand
import BridgeCall.Plan.Failure
import BridgeCall.Plan.Run
import BridgeCall.Plan.Shape
import BridgeCall.Program
import BridgeCall.Proofs.Editor.Documents
import BridgeCall.Proofs.Editor.News
import BridgeCall.Proofs.Expr.Exactness
import BridgeCall.Proofs.Expr.Locality
import BridgeCall.Proofs.Expr.Names
import BridgeCall.Proofs.Expr.Pieces
import BridgeCall.Proofs.Expr.Placement
import BridgeCall.Proofs.Expr.Reading
import BridgeCall.Proofs.Expr.Sentence
import BridgeCall.Proofs.Expr.TokenStream
import BridgeCall.Proofs.Expr.Translation
import BridgeCall.Proofs.Machine.ClassImage
import BridgeCall.Proofs.Machine.ClassReading
import BridgeCall.Proofs.Machine.DecodedText
import BridgeCall.Proofs.Machine.DescriptorExactness
import BridgeCall.Proofs.Machine.NativeSymbols
import BridgeCall.Proofs.Machine.PoolSlots
import BridgeCall.Proofs.Machine.Signature
import BridgeCall.Proofs.Machine.StoredText
import BridgeCall.Proofs.Machine.SymbolDecoding
import BridgeCall.Proofs.Machine.Truncation
import BridgeCall.Proofs.Plan.Agreement
import BridgeCall.Proofs.Plan.Answer
import BridgeCall.Proofs.Plan.Binding
import BridgeCall.Proofs.Plan.Evaluation
import BridgeCall.Proofs.Plan.FailStop
import BridgeCall.Proofs.Plan.Marshalling
import BridgeCall.Proofs.Plan.Meaning
import BridgeCall.Proofs.Plan.Steps
import BridgeCall.Proofs.Plan.Wording
import BridgeCall.Settings.Basic
import BridgeCall.Settings.Find
import BridgeCall.Settings.Pattern
import BridgeCall.Settings.Registry
import BridgeCall.Text.Bytes
import BridgeCall.Text.Capital
import BridgeCall.Text.Distance
import BridgeCall.Text.Letter
import BridgeCall.Text.Printable
import BridgeCall.Text.Quoted
import BridgeCall.Text.Space
import BridgeCall.Text.Utf8
import BridgeCall.Yaml.Atom
import BridgeCall.Yaml.Cursor
import BridgeCall.Yaml.Input
import BridgeCall.Yaml.Lexer
import BridgeCall.Yaml.Node
import BridgeCall.Yaml.Scalar
import BridgeCall.Yaml.Tag
import BridgeCall.Yaml.Token
import BridgeCall.Yaml.Value
import BridgeCall.Proofs.Expr.Spans
import BridgeCall.Proofs.Plan.Isolation
import BridgeCall.Proofs.Plan.WellFormed
import BridgeCall.Proofs.Files.Path
import BridgeCall.Proofs.Files.Tree
import BridgeCall.Proofs.Marker.Calls
import BridgeCall.Proofs.Marker.Collection
import BridgeCall.Proofs.Marker.Generation
import BridgeCall.Proofs.Marker.Requirement
import BridgeCall.Proofs.Marker.Sources
import BridgeCall.Proofs.Settings.Nearest
import BridgeCall.Proofs.Expr.Tiling
import BridgeCall.Proofs.Expr.Verbatim
import BridgeCall.Proofs.Expr.Spacing
import BridgeCall.Proofs.Expr.Lookahead
import BridgeCall.Proofs.Expr.Foresight
import BridgeCall.Proofs.Expr.Viability
import BridgeCall.Proofs.Expr.FirstFault
import BridgeCall.Proofs.Expr.Spelling
import BridgeCall.Proofs.Expr.Renderings
import BridgeCall.Proofs.Host.ExprLiterals
import BridgeCall.Proofs.Host.FileLiterals
import BridgeCall.Proofs.Host.Lexemes
import BridgeCall.Proofs.Host.Unquoted
import BridgeCall.Proofs.Marker.Places
import BridgeCall.Proofs.Machine.UnitLoop
import BridgeCall.Proofs.Plan.Passage
import BridgeCall.Proofs.Plan.Refusal
import BridgeCall.Proofs.Plan.Unbound
import BridgeCall.Proofs.Machine.SymbolInverse
import BridgeCall.Proofs.Machine.DescriptorOffsets
import BridgeCall.Proofs.Marker.Accounts
import BridgeCall.Proofs.Marker.ProblemPlaces
import BridgeCall.Proofs.Host.Leads
import BridgeCall.Proofs.Expr.PlaceOrder
import BridgeCall.Proofs.Marker.Splicing
import BridgeCall.Proofs.Bridge.Regions
import BridgeCall.Proofs.Text.Units
import BridgeCall.Proofs.Editor.Ranges
