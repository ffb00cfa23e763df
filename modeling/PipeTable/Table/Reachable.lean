import PipeTable.Table.Reader

/-! # Reachable tables

The tables that come about by use: the empty one, one of a given size or one read from text,
changed by any operations. An operation that reports a fault leaves the table as it was, so only
the others lead on.
-/

namespace PipeTable.Table

inductive Reachable : Table → Prop
  | empty : Reachable Table.empty
  | withSize (rows cols : Nat) : Reachable (Table.withSize rows cols)
  | parse {d : Dialect} {s : Text} {t : Table} (h : Table.parse d s = some t) : Reachable t
  | startLine {t : Table} (ht : Reachable t) (n : Nat) : Reachable { t with startLine := n }
  | refit {t : Table} (ht : Reachable t) : Reachable t.refit
  | addRow {t : Table} (ht : Reachable t) (kind : RowKind) (values : List Text) :
      Reachable (t.addRow kind values)
  | addColumn {t : Table} (ht : Reachable t) : Reachable t.addColumn
  | addSeparator {t : Table} (ht : Reachable t) (d : Dialect) (line : Text) :
      Reachable (t.addSeparator d line)
  | setAlignment {t u : Table} (ht : Reachable t) {col : Nat} {a : Alignment}
      (h : t.setAlignment col a = .ok u) : Reachable u
  | setCell {t u : Table} (ht : Reachable t) {row col : Nat} {value : Text}
      (h : t.setCell row col value = .ok u) : Reachable u
  | setRow {t u : Table} (ht : Reachable t) {row : Nat} {values : List Text}
      (h : t.setRow row values = .ok u) : Reachable u
  | insertRow {t u : Table} (ht : Reachable t) {index : Nat} {kind : RowKind}
      (h : t.insertRow index kind = .ok u) : Reachable u
  | removeRow {t u : Table} (ht : Reachable t) {index : Nat}
      (h : t.removeRow index = .ok u) : Reachable u
  | swapRows {t u : Table} (ht : Reachable t) {a b : Nat}
      (h : t.swapRows a b = .ok u) : Reachable u
  | insertColumn {t u : Table} (ht : Reachable t) {index : Nat}
      (h : t.insertColumn index = .ok u) : Reachable u
  | removeColumn {t u : Table} (ht : Reachable t) {index : Nat}
      (h : t.removeColumn index = .ok (some u)) : Reachable u
  | swapColumns {t u : Table} (ht : Reachable t) {a b : Nat}
      (h : t.swapColumns a b = .ok u) : Reachable u

end PipeTable.Table
