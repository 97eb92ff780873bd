import ProcedureChart.Chart.Acceptance
import ProcedureChart.Chart.Basic
import ProcedureChart.Chart.Definition
import ProcedureChart.Chart.Diagram
import ProcedureChart.Chart.Reading
import ProcedureChart.Chart.Walk
import ProcedureChart.Chart.Writing
import ProcedureChart.Command
import ProcedureChart.Constraint.Basic
import ProcedureChart.Constraint.Filter
import ProcedureChart.Constraint.Nesting
import ProcedureChart.Constraint.Parser
import ProcedureChart.Context
import ProcedureChart.Expr.Basic
import ProcedureChart.Expr.Error
import ProcedureChart.Expr.Eval
import ProcedureChart.Expr.Formula
import ProcedureChart.Expr.Function
import ProcedureChart.Expr.Lexer
import ProcedureChart.Expr.Parser
import ProcedureChart.Expr.Token
import ProcedureChart.Generate.Attempt
import ProcedureChart.Generate.Config
import ProcedureChart.Generate.Diagnostics
import ProcedureChart.Generate.Example
import ProcedureChart.Generate.Fields
import ProcedureChart.Generate.FixedPoint
import ProcedureChart.Generate.Plan
import ProcedureChart.Generate.Raw
import ProcedureChart.Generate.Record
import ProcedureChart.Generate.Run
import ProcedureChart.Generate.Select
import ProcedureChart.Json.Basic
import ProcedureChart.Json.Parser
import ProcedureChart.Json.Printer
import ProcedureChart.Json.Record
import ProcedureChart.Json.Value
import ProcedureChart.Main
import ProcedureChart.Numeric.Dyadic
import ProcedureChart.Numeric.Integral
import ProcedureChart.Numeric.Reading
import ProcedureChart.Numeric.Shortest
import ProcedureChart.Proofs.Accounts
import ProcedureChart.Proofs.Confluence
import ProcedureChart.Proofs.Constraint.Atoms
import ProcedureChart.Proofs.Constraint.Conjunction
import ProcedureChart.Proofs.Constraint.Layout
import ProcedureChart.Proofs.Constraint.Outside
import ProcedureChart.Proofs.Constraint.Parentheses
import ProcedureChart.Proofs.Constraint.Parts
import ProcedureChart.Proofs.Constraint.Reading
import ProcedureChart.Proofs.Constraint.SharedLiterals
import ProcedureChart.Proofs.Constraint.Single
import ProcedureChart.Proofs.Constraint.Valuation
import ProcedureChart.Proofs.Coverage
import ProcedureChart.Proofs.Cycle
import ProcedureChart.Proofs.Derivation
import ProcedureChart.Proofs.Descriptions
import ProcedureChart.Proofs.Distinct
import ProcedureChart.Proofs.Diversity
import ProcedureChart.Proofs.Drawing
import ProcedureChart.Proofs.Enrichment
import ProcedureChart.Proofs.Enumeration
import ProcedureChart.Proofs.Expr.Agreement
import ProcedureChart.Proofs.Expr.Balance
import ProcedureChart.Proofs.Expr.Completeness
import ProcedureChart.Proofs.Expr.Descent
import ProcedureChart.Proofs.Expr.Divisor
import ProcedureChart.Proofs.Expr.Grammar
import ProcedureChart.Proofs.Expr.Halting
import ProcedureChart.Proofs.Expr.Literals
import ProcedureChart.Proofs.Expr.Matching
import ProcedureChart.Proofs.Expr.Neighbours
import ProcedureChart.Proofs.Expr.Numerals
import ProcedureChart.Proofs.Expr.OnePass
import ProcedureChart.Proofs.Expr.Operands
import ProcedureChart.Proofs.Expr.Printer
import ProcedureChart.Proofs.Expr.Printing
import ProcedureChart.Proofs.Expr.Refinement
import ProcedureChart.Proofs.Expr.Scanning
import ProcedureChart.Proofs.Expr.Signs
import ProcedureChart.Proofs.Expr.Skimming
import ProcedureChart.Proofs.Expr.Soundness
import ProcedureChart.Proofs.Expr.Spacing
import ProcedureChart.Proofs.Expr.Spelling
import ProcedureChart.Proofs.Expr.Stability
import ProcedureChart.Proofs.Expr.Words
import ProcedureChart.Proofs.FixedPoint
import ProcedureChart.Proofs.Genuine
import ProcedureChart.Proofs.Halting
import ProcedureChart.Proofs.Hints
import ProcedureChart.Proofs.Json.Codec
import ProcedureChart.Proofs.Json.Numbers
import ProcedureChart.Proofs.Json.Printing
import ProcedureChart.Proofs.Json.Texts
import ProcedureChart.Proofs.Json.Values
import ProcedureChart.Proofs.Judging
import ProcedureChart.Proofs.Labels
import ProcedureChart.Proofs.LargerCounts
import ProcedureChart.Proofs.Listing
import ProcedureChart.Proofs.Logs
import ProcedureChart.Proofs.Lookups
import ProcedureChart.Proofs.Loop
import ProcedureChart.Proofs.Misses
import ProcedureChart.Proofs.Negation
import ProcedureChart.Proofs.Numeric.Comparison
import ProcedureChart.Proofs.Numeric.Magnitude
import ProcedureChart.Proofs.Numeric.Numeral
import ProcedureChart.Proofs.Numeric.Remainder
import ProcedureChart.Proofs.Numeric.Sign
import ProcedureChart.Proofs.Numeric.TotalOrder
import ProcedureChart.Proofs.Numeric.Units
import ProcedureChart.Proofs.Options
import ProcedureChart.Proofs.Phases
import ProcedureChart.Proofs.Pools
import ProcedureChart.Proofs.Pruning
import ProcedureChart.Proofs.Ranks
import ProcedureChart.Proofs.Reachability
import ProcedureChart.Proofs.References
import ProcedureChart.Proofs.Replay
import ProcedureChart.Proofs.RoundTrip
import ProcedureChart.Proofs.Selection
import ProcedureChart.Proofs.SelectionOrder
import ProcedureChart.Proofs.Signatures
import ProcedureChart.Proofs.Splitting
import ProcedureChart.Proofs.Tables
import ProcedureChart.Proofs.Targets
import ProcedureChart.Proofs.Walk
import ProcedureChart.Proofs.WalkedRoutes
import ProcedureChart.Proofs.WellFormed
import ProcedureChart.Random.Mulberry
import ProcedureChart.Random.Source
import ProcedureChart.Route.Analysis
import ProcedureChart.Route.Basic
import ProcedureChart.Route.Branch
import ProcedureChart.Route.Describe
import ProcedureChart.Route.Enumerate
import ProcedureChart.Route.Record
import ProcedureChart.Table
import ProcedureChart.Text.Character
import ProcedureChart.Value
