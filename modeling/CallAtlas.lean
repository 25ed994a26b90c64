import CallAtlas.Analysis.Algorithm
import CallAtlas.Analysis.Hierarchy
import CallAtlas.Analysis.Rapid
import CallAtlas.Analysis.ValueFlow
import CallAtlas.Build.Constraint
import CallAtlas.Build.Platform
import CallAtlas.CallGraph
import CallAtlas.CommandLine.Options
import CallAtlas.CommandLine.Run
import CallAtlas.EdgeFilter
import CallAtlas.Error
import CallAtlas.Export
import CallAtlas.FileTree
import CallAtlas.ImportPath
import CallAtlas.KeyGraph
import CallAtlas.Main
import CallAtlas.Materialize
import CallAtlas.Module
import CallAtlas.Outline.Basic
import CallAtlas.Outline.File
import CallAtlas.Outline.Lowering
import CallAtlas.Outline.Qualifiers
import CallAtlas.Outline.Types
import CallAtlas.PackageDir
import CallAtlas.Pipeline
import CallAtlas.Printer
import CallAtlas.Program.Assembly
import CallAtlas.Program.Basic
import CallAtlas.Program.Load
import CallAtlas.Program.Types
import CallAtlas.Progress
import CallAtlas.Proofs.Checked.Rapid
import CallAtlas.Proofs.Checked.Run
import CallAtlas.Proofs.Checked.Targets
import CallAtlas.Proofs.Distinct
import CallAtlas.Proofs.Export
import CallAtlas.Proofs.FileTree
import CallAtlas.Proofs.Graph
import CallAtlas.Proofs.Materialize.Calls
import CallAtlas.Proofs.Materialize.Run
import CallAtlas.Proofs.Materialize.Saved
import CallAtlas.Proofs.Outline.Calls
import CallAtlas.Proofs.Outline.Files
import CallAtlas.Proofs.Outline.Lowered
import CallAtlas.Proofs.PackageDir.Clause
import CallAtlas.Proofs.PackageDir.Found
import CallAtlas.Proofs.PackageDir.Scan
import CallAtlas.Proofs.Passes
import CallAtlas.Proofs.Precision
import CallAtlas.Proofs.Program.Assembled
import CallAtlas.Proofs.Program.Initializers
import CallAtlas.Proofs.Program.Keys
import CallAtlas.Proofs.Program.Labels
import CallAtlas.Proofs.Rapid.History
import CallAtlas.Proofs.Rapid.Reach
import CallAtlas.Proofs.Refinement
import CallAtlas.Proofs.Resolve.Grounded
import CallAtlas.Proofs.Resolve.Invoked
import CallAtlas.Proofs.Resolve.OneStep
import CallAtlas.Proofs.Resolve.Parts
import CallAtlas.Proofs.Resolve.Reading
import CallAtlas.Proofs.Resolve.Recorded
import CallAtlas.Proofs.Resolve.Recording
import CallAtlas.Proofs.Resolve.Sights
import CallAtlas.Proofs.Resolve.Sites
import CallAtlas.Proofs.Resolve.Steps
import CallAtlas.Proofs.Resolve.Wrappers
import CallAtlas.Proofs.Store.Agreement
import CallAtlas.Proofs.Store.Keeps
import CallAtlas.Proofs.Table
import CallAtlas.Proofs.Types.Closed
import CallAtlas.Proofs.Types.Missing
import CallAtlas.Proofs.Types.Dispatch
import CallAtlas.Proofs.Types.Selection
import CallAtlas.Proofs.ValueFlow.Solve
import CallAtlas.Proofs.ValueFlow.Targets
import CallAtlas.Proofs.ValueFlow.Wrappers
import CallAtlas.Proofs.Walk.Order
import CallAtlas.Proofs.Walk.Steps
import CallAtlas.Proofs.Walk.Visit
import CallAtlas.Proofs.WellFormed
import CallAtlas.Resolve.Actions
import CallAtlas.Resolve.Body
import CallAtlas.Resolve.Expr
import CallAtlas.Resolve.State
import CallAtlas.Rounding
import CallAtlas.Settings.Basic
import CallAtlas.Settings.File
import CallAtlas.Source.ExprRules
import CallAtlas.Source.File
import CallAtlas.Source.Parser
import CallAtlas.Source.StmtRules
import CallAtlas.Source.Token
import CallAtlas.Source.Tree
import CallAtlas.Source.TypeRules
import CallAtlas.Store.Basic
import CallAtlas.Store.Database
import CallAtlas.Store.File
import CallAtlas.Store.Memory
import CallAtlas.Store.Pattern
import CallAtlas.Table
import CallAtlas.Text.Basic
import CallAtlas.Text.Blank
import CallAtlas.Text.Case
import CallAtlas.Text.Classes
import CallAtlas.Text.Json
import CallAtlas.Text.Utf8
import CallAtlas.Ty
import CallAtlas.Proofs.Build.Grammar
import CallAtlas.Proofs.Build.Spelling
import CallAtlas.Proofs.Text
import CallAtlas.Proofs.Build.Legacy
import CallAtlas.Proofs.Outline.Code
import CallAtlas.Proofs.Program.Literals
import CallAtlas.Proofs.Materialize.Sent
import CallAtlas.Proofs.Source.Words
import CallAtlas.Proofs.Source.Clause
import CallAtlas.Proofs.Source.Layout
import CallAtlas.Proofs.Source.Positions
import CallAtlas.Proofs.Types.Depth
import CallAtlas.Proofs.Source.Reading
import CallAtlas.Proofs.Source.Order.Types
import CallAtlas.Proofs.Source.Order.Exprs
import CallAtlas.Proofs.Source.Order.Stmts
import CallAtlas.Proofs.Program.Numbering
import CallAtlas.Proofs.Outline.Lines
import CallAtlas.Proofs.Program.Ground
import CallAtlas.Proofs.Program.Rearranged
import CallAtlas.Proofs.Resolve.Agreement
import CallAtlas.Proofs.Resolve.Alike
import CallAtlas.Proofs.Resolve.Congruence
import CallAtlas.Proofs.Resolve.Exchange
import CallAtlas.Proofs.Resolve.Following
import CallAtlas.Proofs.Resolve.Reordering
import CallAtlas.Proofs.Resolve.Requests
import CallAtlas.Proofs.Resolve.Versions
import CallAtlas.Proofs.ValueFlow.Arrivals
import CallAtlas.Proofs.Store.Search
import CallAtlas.Proofs.ValueFlow.AnyOrder
import CallAtlas.Proofs.Materialize.Progress
import CallAtlas.Proofs.Writers
import CallAtlas.Proofs.Program.Enclosing
import CallAtlas.Proofs.Resolve.Scopes
import CallAtlas.Proofs.Types.Interfaces
