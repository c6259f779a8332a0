import CallTargets.Text.Blank
import CallTargets.Text.NaturalOrder
import CallTargets.Signature.Hash
import CallTargets.Signature.Basic
import CallTargets.Text.Integer
import CallTargets.Text.Quoted
import CallTargets.Text.Utf8
import CallTargets.ByteString
import CallTargets.Path
import CallTargets.IR.Keyword
import CallTargets.IR.Ident
import CallTargets.IR.Type
import CallTargets.IR.Type.Text
import CallTargets.IR.Type.Walk
import CallTargets.IR.Debug
import CallTargets.IR.Value
import CallTargets.IR.Typing
import CallTargets.IR.Module
import CallTargets.IR.Token
import CallTargets.IR.Reader.Cursor
import CallTargets.IR.Reader.Types
import CallTargets.IR.Reader.Constants
import CallTargets.IR.Reader.Metadata
import CallTargets.IR.Reader.Instructions
import CallTargets.Sorting
import CallTargets.IR.Reader
import CallTargets.Assoc
import CallTargets.Signature.Shape
import CallTargets.Signature.StructNames
import CallTargets.Signature.Describe
import CallTargets.IR.Frame
import CallTargets.Layout.DataLayout
import CallTargets.Layout.Size
import CallTargets.Layout.Field
import CallTargets.Layout.Address
import CallTargets.Source.Location
import CallTargets.Analysis.Config
import CallTargets.Analysis.Escape
import CallTargets.Analysis.FuncInfo
import CallTargets.Analysis.CallSite
import CallTargets.Analysis.Stats
import CallTargets.Analysis.Context
import CallTargets.Analysis.DisplayName
import CallTargets.Decimal.Basic
import CallTargets.Decimal.Binary
import CallTargets.Program
import CallTargets.CallGraph.Fact
import CallTargets.CallGraph.Scan
import CallTargets.CallGraph.Visible
import CallTargets.CallGraph.Pass
import CallTargets.Fixpoint
import CallTargets.Text.Lines
import CallTargets.Files
import CallTargets.Source.Lines
import CallTargets.Loading
import CallTargets.Analysis
import CallTargets.Report.Summary
import CallTargets.Report.Metrics
import CallTargets.Report.JsonText
import CallTargets.Report.Json
import CallTargets.Report.Text
import CallTargets.Text.Visible
import CallTargets.Text.Literal
import CallTargets.Text.Radix
import CallTargets.Document.ReadError
import CallTargets.Document.Encoding
import CallTargets.Document.Source
import CallTargets.Document.ScalarText
import CallTargets.Document.Token
import CallTargets.Document.Timestamp
import CallTargets.Document.Scalar
import CallTargets.Document.Node
import CallTargets.Document.Decode
import CallTargets.Document.Reader
import CallTargets.Command.Setting
import CallTargets.Command.Arguments
import CallTargets.Command.SettingsFile
import CallTargets.Command.Help
import CallTargets.Command.Run
import CallTargets.Scenario.Basic
import CallTargets.Scenario.Difference
import CallTargets.Scenario.Run
import CallTargets.Report.Timestamp
import CallTargets.Command.Paths
import CallTargets.Main
import CallTargets.Proofs.Fixpoint.Rounds
import CallTargets.Proofs.Context.Indexes
import CallTargets.Proofs.Discovery.Scan
import CallTargets.Proofs.Discovery.Preparation
import CallTargets.Proofs.Discovery.Gathering
import CallTargets.Proofs.Discovery.Order
import CallTargets.Proofs.TypeWalk
import CallTargets.Proofs.Layout.Owners
import CallTargets.Proofs.Matching.Phase
import CallTargets.Proofs.Matching.Outcome
import CallTargets.Proofs.Matching.Declarative
import CallTargets.Proofs.Matching.Order
import CallTargets.Proofs.Matching.Settings
import CallTargets.Proofs.Discovery.Constants
import CallTargets.Proofs.Discovery.Operands
import CallTargets.Proofs.Discovery.Findings
import CallTargets.Proofs.Layout.Remembered
import CallTargets.Proofs.Layout.Exact
import CallTargets.Proofs.Layout.Paths
import CallTargets.Proofs.Layout.Judgement
import CallTargets.Proofs.Discovery.Layouts
import CallTargets.Proofs.Discovery.Initializers
import CallTargets.Proofs.Discovery.Borrowing
import CallTargets.Proofs.Discovery.Reordering
import CallTargets.Proofs.Discovery.Renumbering
import CallTargets.Proofs.Matching.Readback
import CallTargets.Proofs.Matching.Permutation
import CallTargets.Proofs.Fixpoint.Invariants
import CallTargets.Proofs.Discovery.CallOrder
import CallTargets.Proofs.Discovery.Canonical
import CallTargets.Proofs.Matching.Recorded
import CallTargets.Proofs.Matching.Failure
import CallTargets.Proofs.Matching.FirstPhase
import CallTargets.Proofs.Matching.Registered
import CallTargets.Proofs.Matching.External
import CallTargets.Proofs.Matching.Positions
import CallTargets.Proofs.Fixpoint.Cancellation
import CallTargets.Proofs.Discovery.Visibility
import CallTargets.Proofs.Matching.Statistics
import CallTargets.Proofs.Layout.Placement
import CallTargets.Proofs.Layout.Inversion
import CallTargets.Proofs.Signature.Printed
import CallTargets.Proofs.Signature.ClassParameter
import CallTargets.Proofs.Signature.Respacing
import CallTargets.Proofs.Signature.StructNames
import CallTargets.Proofs.Layout.Session
import CallTargets.Proofs.Layout.Covering
import CallTargets.Proofs.Layout.Wrapping
import CallTargets.Proofs.Layout.Alignment
import CallTargets.Proofs.Layout.Endless
import CallTargets.Proofs.Sorting
import CallTargets.Proofs.Source.BelowRoot
import CallTargets.Proofs.Scenario.Acceptance
import CallTargets.Proofs.Loading.Partition
import CallTargets.Proofs.Matching.Changes
import CallTargets.Proofs.Discovery.SymbolNames
import CallTargets.Proofs.Context.Insertions
import CallTargets.Proofs.Layout.Nesting
import CallTargets.Proofs.Matching.Assignment
