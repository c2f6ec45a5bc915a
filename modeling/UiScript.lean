import UiScript.Binary64
import UiScript.Binary64.Decimal
import UiScript.Binary64.Shortest
import UiScript.Binary64.Written
import UiScript.Cache
import UiScript.Catalog
import UiScript.Catalog.Builtin
import UiScript.Cli
import UiScript.Compilation
import UiScript.Diagnostic
import UiScript.Disk
import UiScript.Element
import UiScript.Element.Text
import UiScript.Element.Tree
import UiScript.Equality
import UiScript.Evaluation
import UiScript.Json
import UiScript.Json.Document
import UiScript.Json.Written
import UiScript.Kind
import UiScript.Loader
import UiScript.Main
import UiScript.Operator
import UiScript.Path
import UiScript.Preparation
import UiScript.Problem
import UiScript.Proofs.BlockScripts
import UiScript.Proofs.Checking
import UiScript.Proofs.Combining
import UiScript.Proofs.Compilation
import UiScript.Proofs.Concatenation
import UiScript.Proofs.Coverage
import UiScript.Proofs.Dependence
import UiScript.Proofs.Documents
import UiScript.Proofs.Element.Nodes
import UiScript.Proofs.Element.Occurrence
import UiScript.Proofs.Element.Places
import UiScript.Proofs.Element.Relabel
import UiScript.Proofs.Element.Report
import UiScript.Proofs.Element.Shape
import UiScript.Proofs.Equality.Content
import UiScript.Proofs.Equality.Dictionaries
import UiScript.Proofs.Equality.Equations
import UiScript.Proofs.Evaluation
import UiScript.Proofs.Folding
import UiScript.Proofs.Grammar
import UiScript.Proofs.Grammar.Acceptance
import UiScript.Proofs.Grammar.Blocks
import UiScript.Proofs.Grammar.Completeness
import UiScript.Proofs.Grammar.Legible
import UiScript.Proofs.Grammar.Passing
import UiScript.Proofs.Grammar.Soundness
import UiScript.Proofs.Grammar.Written
import UiScript.Proofs.Idempotence
import UiScript.Proofs.LazyBlocks
import UiScript.Proofs.Loading
import UiScript.Proofs.Machine
import UiScript.Proofs.Machine.Blocks
import UiScript.Proofs.Machine.Following
import UiScript.Proofs.Machine.Operands
import UiScript.Proofs.Machine.Progress
import UiScript.Proofs.Machine.Ranges
import UiScript.Proofs.Nesting
import UiScript.Proofs.Numerals
import UiScript.Proofs.OpenStrings
import UiScript.Proofs.Paths
import UiScript.Proofs.Places
import UiScript.Proofs.Precedence
import UiScript.Proofs.Preparation
import UiScript.Proofs.Reading.Depth
import UiScript.Proofs.Reading.Everywhere
import UiScript.Proofs.Reading.Levels
import UiScript.Proofs.Reading.Nested
import UiScript.Proofs.Reading.Placement
import UiScript.Proofs.Reading.Progress
import UiScript.Proofs.Reading.Regular
import UiScript.Proofs.Reading.Room
import UiScript.Proofs.Reading.Sequence
import UiScript.Proofs.Reading.Shift
import UiScript.Proofs.Rebuilding
import UiScript.Proofs.Reparsing
import UiScript.Proofs.Reports
import UiScript.Proofs.RoundTrip
import UiScript.Proofs.Scan.Lines
import UiScript.Proofs.Scan.Locality
import UiScript.Proofs.Scan.References
import UiScript.Proofs.Scan.Seams
import UiScript.Proofs.Scan.Spelling
import UiScript.Proofs.Scan.Steps
import UiScript.Proofs.Scan.Tiling
import UiScript.Proofs.SettingsFiles
import UiScript.Proofs.Splicing
import UiScript.Proofs.Substitution
import UiScript.Proofs.TypeMistakes
import UiScript.Proofs.Typing
import UiScript.Proofs.Unbound
import UiScript.Reading.Chain
import UiScript.Reading.Cursor
import UiScript.Reading.Listing
import UiScript.Reading.Operand
import UiScript.Reading.Statement
import UiScript.Scope
import UiScript.Script
import UiScript.Settings
import UiScript.Settings.File
import UiScript.Span
import UiScript.Substitution
import UiScript.Summary
import UiScript.Text.Alphabetic
import UiScript.Text.Class
import UiScript.Text.Combining
import UiScript.Text.Invisible
import UiScript.Text.Numeric
import UiScript.Text.Quoted
import UiScript.Text.Utf8
import UiScript.Text.Visible
import UiScript.Token
import UiScript.Token.Scan
import UiScript.Value
