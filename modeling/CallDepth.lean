import CallDepth.Analysis
import CallDepth.Bytes
import CallDepth.CallGraph
import CallDepth.CallIndex
import CallDepth.CallLog
import CallDepth.CallRecord
import CallDepth.CommandLine
import CallDepth.CommandLine.Parameter
import CallDepth.CommandLine.Request
import CallDepth.CommandLine.Wording
import CallDepth.Decimal.Binary64
import CallDepth.Decimal.Shortest
import CallDepth.Failure
import CallDepth.Files.Disk
import CallDepth.Files.Event
import CallDepth.Files.FileTree
import CallDepth.Files.Path
import CallDepth.Json.Basic
import CallDepth.Json.Number
import CallDepth.Json.Reader
import CallDepth.Json.Token
import CallDepth.Json.Writer
import CallDepth.Main
import CallDepth.Method
import CallDepth.Method.Grammar
import CallDepth.MethodSet
import CallDepth.Proofs.Analysis.Agreement
import CallDepth.Proofs.Analysis.Computed
import CallDepth.Proofs.Analysis.Failing
import CallDepth.Proofs.Analysis.History
import CallDepth.Proofs.Analysis.KeptTests
import CallDepth.Proofs.Analysis.LogOrder
import CallDepth.Proofs.Analysis.Reexport
import CallDepth.Proofs.Analysis.Refresh
import CallDepth.Proofs.Analysis.Retry
import CallDepth.Proofs.Analysis.Reuse
import CallDepth.Proofs.Analysis.Stages
import CallDepth.Proofs.Analysis.Twin
import CallDepth.Proofs.CallGraph
import CallDepth.Proofs.CallGraph.Additions
import CallDepth.Proofs.CallIndex
import CallDepth.Proofs.CallLog
import CallDepth.Proofs.CommonStart
import CallDepth.Proofs.Except
import CallDepth.Proofs.Files.Alike
import CallDepth.Proofs.Files.Frame
import CallDepth.Proofs.Files.Matching
import CallDepth.Proofs.Files.Medium
import CallDepth.Proofs.Files.Place
import CallDepth.Proofs.Files.Saving
import CallDepth.Proofs.Files.Tally
import CallDepth.Proofs.Files.Triple
import CallDepth.Proofs.Files.Twin
import CallDepth.Proofs.Files.Variation
import CallDepth.Proofs.Json.Building
import CallDepth.Proofs.Json.Document
import CallDepth.Proofs.Json.Grammar
import CallDepth.Proofs.Json.Pretty
import CallDepth.Proofs.Json.Token
import CallDepth.Proofs.Log.Lines
import CallDepth.Proofs.Log.Reading
import CallDepth.Proofs.Log.Size
import CallDepth.Proofs.Log.Written
import CallDepth.Proofs.Members
import CallDepth.Proofs.Method.Form
import CallDepth.Proofs.Method.Leading
import CallDepth.Proofs.Method.Made
import CallDepth.Proofs.Reach.Block
import CallDepth.Proofs.Reach.Chain
import CallDepth.Proofs.Reach.Descent
import CallDepth.Proofs.Reach.Filtering
import CallDepth.Proofs.Reach.Index
import CallDepth.Proofs.Reach.Layers
import CallDepth.Proofs.Reach.Levels
import CallDepth.Proofs.Reach.Recorded
import CallDepth.Proofs.Reach.Roots
import CallDepth.Proofs.Reach.Walk
import CallDepth.Proofs.Reach.Widening
import CallDepth.Proofs.Record.Cuts
import CallDepth.Proofs.Record.Form
import CallDepth.Proofs.Record.Parse
import CallDepth.Proofs.Scope
import CallDepth.Proofs.Selection.Listed
import CallDepth.Proofs.Selection.RunMark
import CallDepth.Proofs.Store.CutShort
import CallDepth.Proofs.Store.Layout
import CallDepth.Proofs.Store.Malformed
import CallDepth.Proofs.Store.MethodList
import CallDepth.Proofs.Store.Protocol
import CallDepth.Proofs.Store.Refusal
import CallDepth.Proofs.Store.Report
import CallDepth.Proofs.Store.Size
import CallDepth.Proofs.Store.Snapshot
import CallDepth.Proofs.Text.Boundary
import CallDepth.Proofs.Text.Trim
import CallDepth.Proofs.Text.Utf8
import CallDepth.Reach.BreadthFirst
import CallDepth.Reach.DepthFirst
import CallDepth.Reach.Strategy
import CallDepth.Reach.Trail
import CallDepth.Scope
import CallDepth.Selection
import CallDepth.Settings
import CallDepth.Store.Artifact
import CallDepth.Store.Codec
import CallDepth.Store.MethodList
import CallDepth.Store.Report
import CallDepth.Store.Snapshot
import CallDepth.Store.TestList
import CallDepth.Text.CharRange
import CallDepth.Text.Digit
import CallDepth.Text.Plain
import CallDepth.Text.Quoted
import CallDepth.Text.Run
import CallDepth.Text.Trim
import CallDepth.Text.Utf8
import CallDepth.Text.Word
import CallDepth.Toml.Document
import CallDepth.Toml.Item
import CallDepth.Toml.Layout
import CallDepth.Toml.Quoted
import CallDepth.Toml.Scalar
import CallDepth.Toml.Value
