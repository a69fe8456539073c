import Localizer.Bundle.Basic
import Localizer.Bundle.Catalog
import Localizer.Bundle.Localize
import Localizer.Bundle.Manifest
import Localizer.Bundle.Record
import Localizer.Calls.Analysis
import Localizer.Calls.Imports
import Localizer.Calls.Load
import Localizer.Calls.Site
import Localizer.Commands.Arguments
import Localizer.Commands.Config
import Localizer.Commands.Context
import Localizer.Commands.Failure
import Localizer.Commands.Options
import Localizer.Commands.Process
import Localizer.Commands.Run
import Localizer.Commands.Translate
import Localizer.Digest.Sha256
import Localizer.Edit.Apply
import Localizer.Edit.Document
import Localizer.Extraction
import Localizer.Files.Disk
import Localizer.Files.Glob
import Localizer.Files.Path
import Localizer.Files.Scan
import Localizer.Files.Tree
import Localizer.Json.Basic
import Localizer.Json.Decode
import Localizer.Json.Double
import Localizer.Json.Printer
import Localizer.Json.Reader
import Localizer.Main
import Localizer.Report.Diagnostic
import Localizer.Report.Render
import Localizer.Report.Summary
import Localizer.Scope.Resolution
import Localizer.Scope.Visits
import Localizer.Source.Dialect
import Localizer.Source.Grammar.Elements
import Localizer.Source.Grammar.Expressions
import Localizer.Source.Grammar.Functions
import Localizer.Source.Grammar.Patterns
import Localizer.Source.Grammar.Rules
import Localizer.Source.Grammar.Statements
import Localizer.Source.Grammar.Types
import Localizer.Source.Identifier
import Localizer.Source.Literal
import Localizer.Source.Program
import Localizer.Source.Reader
import Localizer.Source.Scanning
import Localizer.Source.Script
import Localizer.Source.Token
import Localizer.Source.Tree
import Localizer.SourceMap.Basic
import Localizer.SourceMap.Decode
import Localizer.SourceMap.Encode
import Localizer.SourceMap.Vlq
import Localizer.Table
import Localizer.Text.Basic
import Localizer.Text.Comments
import Localizer.Text.Digits
import Localizer.Text.Escape
import Localizer.Text.Lines
import Localizer.Text.Position
import Localizer.Text.Units
import Localizer.Text.Width
import Localizer.Proofs.Replacement
import Localizer.Proofs.Splice
import Localizer.Proofs.Layout
import Localizer.Proofs.Reading
import Localizer.Proofs.Reading.Patterns
import Localizer.Proofs.Reading.Functions
import Localizer.Proofs.Reading.Elements
import Localizer.Proofs.Reading.Expressions
import Localizer.Proofs.Reading.Statements
import Localizer.Proofs.LineIndex
import Localizer.Proofs.Positions
import Localizer.Proofs.Stretches
import Localizer.Proofs.Requests
import Localizer.Proofs.JsonText
import Localizer.Proofs.MapText
import Localizer.Proofs.MapRoundTrip
import Localizer.Proofs.Marks
import Localizer.Proofs.Moves
import Localizer.Proofs.Unedited
import Localizer.Proofs.Cuts
import Localizer.Proofs.Relocation
import Localizer.Proofs.Parts
import Localizer.Proofs.Declared
import Localizer.Proofs.Bindings
import Localizer.Proofs.Sites
import Localizer.Proofs.Shadowing
import Localizer.Proofs.InPlace
import Localizer.Proofs.Pieces
import Localizer.Proofs.Tables
import Localizer.Proofs.Acceptance
import Localizer.Proofs.Fallback
import Localizer.Proofs.Fingerprint
import Localizer.Proofs.Paths
import Localizer.Proofs.Places
import Localizer.Proofs.Commands
import Localizer.Proofs.Treatment
import Localizer.Proofs.Failures
import Localizer.Proofs.Singly
import Localizer.Proofs.Records
import Localizer.Proofs.Growth
import Localizer.Proofs.Copies
import Localizer.Proofs.Schedule
import Localizer.Proofs.Joining
import Localizer.Proofs.Offsets
import Localizer.Proofs.Stray
import Localizer.Proofs.ByteOrderMark
import Localizer.Proofs.Stripping
import Localizer.Proofs.Collected
import Localizer.Proofs.Escapes
import Localizer.Proofs.Quoting
import Localizer.Proofs.Parentheses
import Localizer.Proofs.LineBreaks
import Localizer.Proofs.LiveLines
import Localizer.Proofs.Columns
import Localizer.Proofs.Recording
