import ReportAssembly.Assembly.Error
import ReportAssembly.Assembly.Package
import ReportAssembly.Assembly.Run
import ReportAssembly.Assembly.Source
import ReportAssembly.CommandLine.Arguments
import ReportAssembly.CommandLine.Program
import ReportAssembly.Decimal.Reading
import ReportAssembly.Decimal.Shortest
import ReportAssembly.Design.Basic
import ReportAssembly.Design.Excerpt
import ReportAssembly.Design.Grammar
import ReportAssembly.Design.Lexer
import ReportAssembly.Design.Printer
import ReportAssembly.Design.SyntaxError
import ReportAssembly.Design.Token
import ReportAssembly.Files.Basic
import ReportAssembly.Files.Path
import ReportAssembly.Files.Snapshot
import ReportAssembly.Files.Tree
import ReportAssembly.Fill.Evaluation
import ReportAssembly.Fill.Value
import ReportAssembly.Interpolation
import ReportAssembly.Main
import ReportAssembly.Note
import ReportAssembly.Placeholder.Basic
import ReportAssembly.Placeholder.Binding
import ReportAssembly.Placeholder.Reference
import ReportAssembly.Report.Basic
import ReportAssembly.Report.Compiler
import ReportAssembly.Settings
import ReportAssembly.Store.Basic
import ReportAssembly.Store.Directory
import ReportAssembly.Store.Registry
import ReportAssembly.Text.Blank
import ReportAssembly.Text.CellWidth
import ReportAssembly.Text.Printable
import ReportAssembly.Text.Quoted
import ReportAssembly.Text.Ranges
import ReportAssembly.Text.Span
import ReportAssembly.Text.Visible
import ReportAssembly.Toml.Document
import ReportAssembly.Toml.Number
import ReportAssembly.Toml.Table
import ReportAssembly.Toml.Text
import ReportAssembly.Toml.Value
import ReportAssembly.Proofs.TemplateNames
import ReportAssembly.Proofs.BoundForms
import ReportAssembly.Proofs.DepthFirst
import ReportAssembly.Proofs.RunInduction
import ReportAssembly.Proofs.Completion
import ReportAssembly.Proofs.Acceptance
import ReportAssembly.Proofs.PackageOrder
import ReportAssembly.Proofs.SingleLevel
import ReportAssembly.Proofs.Chunking
import ReportAssembly.Proofs.Wiring
import ReportAssembly.Proofs.Lexing
import ReportAssembly.Proofs.PrintedForms
import ReportAssembly.Proofs.GrammarSteps
import ReportAssembly.Proofs.GrammarReading
import ReportAssembly.Proofs.RoundTrip
import ReportAssembly.Proofs.Agenda
import ReportAssembly.Proofs.PartlyBound
import ReportAssembly.Proofs.FirstFault
import ReportAssembly.Proofs.Recomposition
import ReportAssembly.Proofs.CompiledForms
import ReportAssembly.Proofs.ClosedPackage
import ReportAssembly.Proofs.BlockComments
import ReportAssembly.Proofs.GrammarLanguage
import ReportAssembly.Proofs.ConservativeBinding
import ReportAssembly.Proofs.EmittedMaster
import ReportAssembly.Proofs.ConservedReports
import ReportAssembly.Proofs.Moments
import ReportAssembly.Proofs.Descents
import ReportAssembly.Proofs.OnceEach
import ReportAssembly.Proofs.Registrations
import ReportAssembly.Proofs.Locality
import ReportAssembly.Proofs.OpenStores
import ReportAssembly.Proofs.Unplaced
import ReportAssembly.Proofs.Reformatting
import ReportAssembly.Proofs.BothModes
import ReportAssembly.Proofs.FiledTemplates
import ReportAssembly.Proofs.Problems
import ReportAssembly.Proofs.ValidDesigns
import ReportAssembly.Proofs.FieldValues
import ReportAssembly.Proofs.Containment
import ReportAssembly.Proofs.WrittenForms
import ReportAssembly.Proofs.SourceItems
import ReportAssembly.Proofs.PlacelessReading
import ReportAssembly.Proofs.Relayout
import ReportAssembly.Proofs.BindingRuns
import ReportAssembly.Proofs.CanonicalChunks
import ReportAssembly.Proofs.ViablePrefixes
import ReportAssembly.Proofs.SyntaxErrors
import ReportAssembly.Proofs.SourceLines
import ReportAssembly.Proofs.PointedExcerpts
import ReportAssembly.Proofs.ReferenceValues
import ReportAssembly.Proofs.FaultyReferences
import ReportAssembly.Proofs.ByteCuts
import ReportAssembly.Proofs.ReservedNames
import ReportAssembly.Proofs.EntryTokens
import ReportAssembly.Proofs.EntrySpans
import ReportAssembly.Proofs.Guards
import ReportAssembly.Proofs.RegistryHistories
import ReportAssembly.Proofs.ReferenceShape
import ReportAssembly.Proofs.Ledgers
import ReportAssembly.Proofs.Journals
import ReportAssembly.Proofs.SharedLedger
import ReportAssembly.Proofs.Identifiers
