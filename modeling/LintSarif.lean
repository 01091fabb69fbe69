import LintSarif.CommandLine
import LintSarif.CommandLine.Grammar
import LintSarif.Conversion
import LintSarif.Diagnostic.Basic
import LintSarif.Diagnostic.Grammar
import LintSarif.Diagnostic.Printer
import LintSarif.Diagnostic.Reader
import LintSarif.Diagnostic.Scan
import LintSarif.Diagnostic.SingleScan
import LintSarif.FileError
import LintSarif.FileSystem.Basic
import LintSarif.FileSystem.Host
import LintSarif.FileSystem.Operations
import LintSarif.FileSystem.Paths
import LintSarif.FileSystem.Walk
import LintSarif.Json.Basic
import LintSarif.Json.Grammar
import LintSarif.Json.Printer
import LintSarif.Json.Quoted
import LintSarif.Json.Reader
import LintSarif.Log.Event
import LintSarif.Log.Level
import LintSarif.Main
import LintSarif.Path
import LintSarif.Path.Trail
import LintSarif.Program
import LintSarif.Proofs.CommandLine.Acceptance
import LintSarif.Proofs.CommandLine.Items
import LintSarif.Proofs.Diagnostic.Body
import LintSarif.Proofs.Diagnostic.Canonical
import LintSarif.Proofs.Diagnostic.FirstPosition
import LintSarif.Proofs.Diagnostic.Header
import LintSarif.Proofs.Diagnostic.LastBrackets
import LintSarif.Proofs.Diagnostic.LineEndings
import LintSarif.Proofs.Diagnostic.Reading
import LintSarif.Proofs.Diagnostic.RoundTrip
import LintSarif.Proofs.Diagnostic.SingleScan
import LintSarif.Proofs.Diagnostic.WellFormed
import LintSarif.Proofs.FileSystem.Access
import LintSarif.Proofs.FileSystem.Conversion
import LintSarif.Proofs.FileSystem.Failure
import LintSarif.Proofs.FileSystem.Paths
import LintSarif.Proofs.FileSystem.Run
import LintSarif.Proofs.FileSystem.Verbosity
import LintSarif.Proofs.Json.Layout
import LintSarif.Proofs.Json.Outline
import LintSarif.Proofs.Json.Printing
import LintSarif.Proofs.Json.Reading
import LintSarif.Proofs.Json.Scalar
import LintSarif.Proofs.Path.Joining
import LintSarif.Proofs.Path.NormalForm
import LintSarif.Proofs.Path.Resolution
import LintSarif.Proofs.Path.Trail
import LintSarif.Proofs.Sarif.Catalog
import LintSarif.Proofs.Sarif.Fidelity
import LintSarif.Proofs.Sarif.Inert
import LintSarif.Proofs.Sarif.Integrity
import LintSarif.Proofs.Sarif.Logging
import LintSarif.Proofs.Sarif.Merging
import LintSarif.Proofs.Sarif.Outline
import LintSarif.Proofs.Sarif.Positions
import LintSarif.Proofs.Sarif.Registration
import LintSarif.Proofs.Sarif.Uris
import LintSarif.Proofs.Text.LineBreak
import LintSarif.Proofs.Text.Numeral
import LintSarif.Proofs.Text.Token
import LintSarif.Sarif.Basic
import LintSarif.Sarif.Catalog
import LintSarif.Sarif.Document
import LintSarif.Sarif.Encoding
import LintSarif.Severity
import LintSarif.Text.Blank
import LintSarif.Text.LineBreak
import LintSarif.Text.LineEndings
import LintSarif.Text.Lines
import LintSarif.Text.Numeral
import LintSarif.Text.Token
