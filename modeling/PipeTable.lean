import PipeTable.Main
import PipeTable.Program.Logging
import PipeTable.Storage.Tree
import PipeTable.Table.Reachable
import PipeTable.Proofs.Table.Growth
import PipeTable.Proofs.Table.Outcome
import PipeTable.Proofs.Table.Invariant
import PipeTable.Proofs.Text.Fields
import PipeTable.Proofs.Table.Line
import PipeTable.Proofs.Table.Legible
import PipeTable.Proofs.Table.Written
import PipeTable.Proofs.Table.RoundTrip
import PipeTable.Proofs.Command.ColumnEdits
import PipeTable.Proofs.Document.Realigned
import PipeTable.Proofs.Document.Formatting
import PipeTable.Proofs.Command.RowEdits
import PipeTable.Proofs.Navigation.Span
import PipeTable.Proofs.Navigation.Stop
import PipeTable.Proofs.Navigation.Moves
import PipeTable.Proofs.Navigation.Written
import PipeTable.Proofs.Table.BlankEdit
import PipeTable.Proofs.Command.Writing
import PipeTable.Proofs.Command.Formatted
import PipeTable.Proofs.Command.CellWalk
import PipeTable.Proofs.Command.NextRow
import PipeTable.Proofs.Command.Outcome
import PipeTable.Proofs.Table.Reversal
import PipeTable.Proofs.Command.Undo
import PipeTable.Proofs.Command.Frame
import PipeTable.Proofs.Text.Documents
import PipeTable.Proofs.Document.Stability
import PipeTable.Proofs.Document.Prose
import PipeTable.Proofs.Command.Anchor
import PipeTable.Proofs.Command.Edited
import PipeTable.Proofs.Command.Totality
import PipeTable.Proofs.Command.Following
import PipeTable.Proofs.Navigation.Tiling
import PipeTable.Proofs.Table.Reading
import PipeTable.Proofs.Command.LiveCells
import PipeTable.Proofs.Command.Growing
import PipeTable.Proofs.Command.Bounds
import PipeTable.Proofs.Navigation.Walk
import PipeTable.Proofs.Navigation.RowWalk
import PipeTable.Proofs.Navigation.Estimate
import PipeTable.Proofs.Table.OfLines
import PipeTable.Proofs.Document.Partition
import PipeTable.Proofs.Table.Layout
import PipeTable.Proofs.Table.Aligned
import PipeTable.Proofs.Table.InPlace
import PipeTable.Proofs.Table.Simulation
import PipeTable.Proofs.Table.Atomic
import PipeTable.Proofs.Table.Consistency
import PipeTable.Proofs.Table.Grid
import PipeTable.Proofs.Command.Beside
import PipeTable.Proofs.Storage.Tree
import PipeTable.Proofs.Program.Reading
import PipeTable.Proofs.Program.Writing
