import RowTree.Project.Basic
import RowTree.Record.Shape
import RowTree.Scalar.Json
import RowTree.Schema.Document
import RowTree.Proofs.Text.Blank
import RowTree.Proofs.Text.Sheet
import RowTree.Proofs.Text.Numeral
import RowTree.Proofs.Text.Decimal
import RowTree.Proofs.Calendar.RoundTrip
import RowTree.Proofs.Scalar.Text
import RowTree.Proofs.Scalar.Json
import RowTree.Proofs.Scalar.Integer
import RowTree.Proofs.Record.Effect
import RowTree.Proofs.Record.Order
import RowTree.Proofs.Record.Import
import RowTree.Proofs.Record.Filled
import RowTree.Proofs.Record.Leaves
import RowTree.Proofs.Record.RoundTrip
import RowTree.Proofs.Record.Run
import RowTree.Proofs.Record.Frame
import RowTree.Proofs.Record.Prune
import RowTree.Proofs.Record.Refusal
import RowTree.Proofs.Record.Growth
import RowTree.Proofs.Record.Independence
import RowTree.Proofs.Record.Outcome
import RowTree.Proofs.Record.Overwrite
import RowTree.Proofs.Record.Repetition
import RowTree.Proofs.Schema.Declared
import RowTree.Proofs.Schema.Height
import RowTree.Proofs.Schema.Passes
import RowTree.Proofs.Schema.Outcome
import RowTree.Proofs.Schema.Stall
import RowTree.Proofs.Schema.Registration
import RowTree.Proofs.Schema.Assembly
import RowTree.Proofs.Schema.Built
import RowTree.Proofs.Schema.Addressing
import RowTree.Proofs.Schema.Reordering
import RowTree.Proofs.Schema.Members
import RowTree.Proofs.Registry.Index
import RowTree.Proofs.Registry.History
import RowTree.Proofs.Rule.Outcome
import RowTree.Proofs.Rule.Completion
import RowTree.Proofs.Rule.Rows
import RowTree.Proofs.Rule.Interval
import RowTree.Proofs.Rule.Declaration
import RowTree.Proofs.Rule.Redeclaration
import RowTree.Proofs.Project.Layout
import RowTree.Proofs.Project.RoundTrip
import RowTree.Proofs.Project.Padding
import RowTree.Proofs.Project.Tables
import RowTree.Proofs.Store.Catalog
import RowTree.Proofs.Store.History
import RowTree.Proofs.Store.Provenance
import RowTree.Proofs.Store.Checks
import RowTree.Proofs.Store.Projection
import RowTree.Proofs.Store.Interleaving
import RowTree.Proofs.Store.Export
