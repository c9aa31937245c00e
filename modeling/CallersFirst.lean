import CallersFirst.Main
import CallersFirst.Proofs.CallGraph.Traversal
import CallersFirst.Proofs.CallGraph.Walk
import CallersFirst.Proofs.CallGraph.Names
import CallersFirst.Proofs.CallGraph.Order
import CallersFirst.Proofs.CallGraph.OnlyCaller
import CallersFirst.Proofs.CallGraph.Recursion
import CallersFirst.Proofs.CallGraph.Loops
import CallersFirst.Proofs.CallGraph.Representation
import CallersFirst.Proofs.CallGraph.Tables
import CallersFirst.Proofs.CallGraph.Noise
import CallersFirst.Proofs.CallGraph.ClosedWays
import CallersFirst.Proofs.CallGraph.Cycles
import CallersFirst.Proofs.CallGraph.CycleSearch
import CallersFirst.Proofs.SyntaxTree.Nesting
import CallersFirst.Proofs.SyntaxTree.Addresses
import CallersFirst.Proofs.Loops
import CallersFirst.Proofs.SyntaxTree.Stack
import CallersFirst.Proofs.Splice
import CallersFirst.Proofs.Splice.Simultaneous
import CallersFirst.Proofs.CallableUnit
import CallersFirst.Proofs.Extraction
import CallersFirst.Proofs.Extraction.Ends
import CallersFirst.Proofs.Text.Significant
import CallersFirst.Proofs.Arrangement.Checks
import CallersFirst.Proofs.Arrangement.Weave
import CallersFirst.Proofs.Arrangement.Continuation
import CallersFirst.Proofs.Arrangement.Layout
import CallersFirst.Proofs.Arrangement.Rendering
import CallersFirst.Proofs.Arrangement.Refusal
import CallersFirst.Proofs.Arrangement.Relocation
import CallersFirst.Proofs.Arrangement.Guarded
import CallersFirst.Proofs.Arrangement.LineBreaks
import CallersFirst.Proofs.Arrangement.Listing
import CallersFirst.Proofs.Analysis
import CallersFirst.Proofs.Extraction.Comments
import CallersFirst.Proofs.Analysis.Arrangement
import CallersFirst.Proofs.Reordering
import CallersFirst.Proofs.Settling
import CallersFirst.Proofs.Resolution
import CallersFirst.Proofs.Extraction.Accessors
import CallersFirst.Proofs.Analysis.Duplicates
import CallersFirst.Proofs.Analysis.LineComments
import CallersFirst.Proofs.Settling.Rounds
import CallersFirst.Proofs.Path.Order
import CallersFirst.Proofs.FileTree
import CallersFirst.Proofs.FileTree.Routes
import CallersFirst.Proofs.FileTree.Writing
import CallersFirst.Proofs.Collection
import CallersFirst.Proofs.Settling.Again
import CallersFirst.Proofs.Settling.Growth
import CallersFirst.Proofs.Settling.Unsettled
import CallersFirst.Proofs.Command
import CallersFirst.Proofs.Command.Fix
import CallersFirst.Proofs.Command.Fix.Again
import CallersFirst.Proofs.Command.Check
import CallersFirst.Proofs.Collection.Distinct
import CallersFirst.Proofs.Toml.Quoted
import CallersFirst.Proofs.Toml.Scalar
import CallersFirst.Proofs.Toml.Document
import CallersFirst.Proofs.Toml.Table
import CallersFirst.Proofs.Settings.Format
import CallersFirst.Proofs.Scope.Discovery
