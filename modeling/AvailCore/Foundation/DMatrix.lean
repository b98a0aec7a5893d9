import AvailCore.Foundation.Chunks
import AvailCore.Foundation.Run
import Mathlib.Data.List.GetD

/-!
# Dense matrices

A matrix of a given shape, kept as it is stored: the list of its columns. It is made
from an iterator over its entries row by row (`fromRowIterator`) or column by column
(`fromIterator`). Either panics when the iterator ends before the matrix is full. Of a
longer one the first leaves the rest, and the second panics.
-/

namespace AvailCore

open Chunks

/-- `nrows` times `ncols` entries, column by column. -/
structure DMatrix (α : Type) (nrows ncols : ℕ) where
  /-- The columns, from the first to the last. -/
  columns : List (List α)
  length_columns : columns.length = ncols
  length_column : ∀ column ∈ columns, column.length = nrows

namespace DMatrix

variable {α ε : Type} {nrows ncols : ℕ}

/-- The entry of a row and a column, when they are there. -/
def get (m : DMatrix α nrows ncols) (row col : ℕ) : Option α := m.columns[col]?.bind fun column => column[row]?

/-- The entries of a column, which is empty when it is not there. -/
def column (m : DMatrix α nrows ncols) (col : ℕ) : List α := m.columns.getD col []

/-- The entries of a row, which is empty when it is not there. -/
def row (m : DMatrix α nrows ncols) (y : ℕ) : List α := m.columns.filterMap fun column => column[y]?

/-- `m[i]`: the entry in the storage, or a panic when `i` is out of bounds. -/
def index (m : DMatrix α nrows ncols) (i : ℕ) : Run ε α := Run.index m.columns.flatten i

/-- `m.row(y)`: its entries, or a panic when it is not there. -/
def getRow (m : DMatrix α nrows ncols) (y : ℕ) : Run ε (List α) := do
  Run.assert (y < nrows)
  return m.row y

/-- `DMatrix::from_row_iterator` -/
def fromRowIterator (nrows ncols : ℕ) (iter : List α) : Run ε (DMatrix α nrows ncols) :=
  if h : nrows * ncols ≤ iter.length then .ok {
    columns := List.ofFn fun col : Fin ncols => List.ofFn fun row : Fin nrows =>
      iter.get ⟨row * ncols + col, by
        have hrow := Nat.mul_le_mul_right ncols row.isLt
        rw [Nat.succ_mul] at hrow
        have := col.isLt
        omega⟩
    length_columns := List.length_ofFn
    length_column := by
      intro column hcolumn
      obtain ⟨col, rfl⟩ := List.mem_ofFn.mp hcolumn
      exact List.length_ofFn }
  else .error .panic

/-- `DMatrix::from_iterator` -/
def fromIterator (nrows ncols : ℕ) (iter : List α) : Run ε (DMatrix α nrows ncols) :=
  if h : nrows * ncols = iter.length then .ok {
    columns := (List.range ncols).map fun col => (iter.drop (col * nrows)).take nrows
    length_columns := by simp
    length_column := by
      intro column hcolumn
      obtain ⟨col, hcol, rfl⟩ := List.mem_map.mp hcolumn
      have hle := Nat.mul_le_mul_right nrows (List.mem_range.mp hcol)
      rw [Nat.succ_mul, Nat.mul_comm ncols] at hle
      rw [List.length_take, List.length_drop]
      omega }
  else .error .panic

/-- Entry by entry, the matrix is the list read row by row. -/
theorem get_fromRowIterator {iter : List α} {m : DMatrix α nrows ncols}
    (h : (fromRowIterator nrows ncols iter : Run ε _) = .ok m) {row col : ℕ} (hrow : row < nrows)
    (hcol : col < ncols) : m.get row col = iter[row * ncols + col]? := by
  unfold fromRowIterator at h
  split_ifs at h with hle
  cases h
  have hlt : row * ncols + col < iter.length := (mul_add_lt hrow hcol).trans_le hle
  simp [get, hrow, hcol, hlt]

/-- Columns of the right length are the columns. -/
theorem fromIterator_flatten {columns : List (List α)} (hlen : columns.length = ncols)
    (h : ∀ column ∈ columns, column.length = nrows) :
    (fromIterator nrows ncols columns.flatten : Run ε _) = .ok ⟨columns, hlen, h⟩ := by
  have hcount : nrows * ncols = columns.flatten.length := by
    rw [length_flatten_uniform h, hlen, Nat.mul_comm]
  have hcolumns : ((List.range ncols).map fun col => (columns.flatten.drop (col * nrows)).take nrows) = columns := by
    refine List.ext_getElem (by simp [hlen]) fun i hi hi' => ?_
    rw [List.getElem_map, List.getElem_range, chunk_flatten_uniform h hi']
  rw [fromIterator, dif_pos hcount]
  congr 2

theorem column_mem (m : DMatrix α nrows ncols) {col : ℕ} (h : col < ncols) : m.column col ∈ m.columns := by
  rw [column, List.getD_eq_getElem _ _ (m.length_columns.symm ▸ h)]
  exact List.getElem_mem _

theorem length_column_of_lt (m : DMatrix α nrows ncols) {col : ℕ} (h : col < ncols) :
    (m.column col).length = nrows := m.length_column _ (m.column_mem h)

theorem get_eq_column (m : DMatrix α nrows ncols) (row col : ℕ) : m.get row col = (m.column col)[row]? := by
  rw [get, column, List.getD_eq_getElem?_getD]
  cases m.columns[col]? with
  | none => rfl
  | some column => rfl

/-- An entry that is there has a row and a column of the matrix. -/
theorem lt_of_get_eq_some {m : DMatrix α nrows ncols} {row col : ℕ} {a : α} (h : m.get row col = some a) :
    row < nrows ∧ col < ncols := by
  obtain ⟨column, hcolumn, hrow⟩ := Option.bind_eq_some_iff.mp h
  have hlength := m.length_column column (List.mem_of_getElem? hcolumn)
  have hlt := (List.getElem?_eq_some_iff.mp hrow).1
  have hlt' := (List.getElem?_eq_some_iff.mp hcolumn).1
  exact ⟨hlength ▸ hlt, m.length_columns ▸ hlt'⟩

theorem exists_get (m : DMatrix α nrows ncols) {row col : ℕ} (hrow : row < nrows) (hcol : col < ncols) :
    ∃ a, m.get row col = some a := by
  have hlt : row < (m.column col).length := (m.length_column_of_lt hcol).symm ▸ hrow
  exact ⟨_, (m.get_eq_column row col).trans (List.getElem?_eq_getElem hlt)⟩

theorem row_eq_map (m : DMatrix α nrows ncols) {y : ℕ} (h : y < nrows) (z : α) :
    m.row y = m.columns.map fun column => column.getD y z := by
  rw [row, ← List.filterMap_eq_map]
  refine List.filterMap_congr fun column hcolumn => ?_
  have hlt : y < column.length := by rwa [m.length_column column hcolumn]
  rw [List.getElem?_eq_getElem hlt, Function.comp, List.getD_eq_getElem _ _ hlt]

@[simp] theorem length_row (m : DMatrix α nrows ncols) {y : ℕ} (h : y < nrows) : (m.row y).length = ncols := by
  rw [row, List.length_filterMap_eq_countP, List.countP_eq_length.mpr, m.length_columns]
  intro column hcolumn
  have hlt : y < column.length := by rwa [m.length_column column hcolumn]
  rw [List.getElem?_eq_getElem hlt]
  rfl

/-- An entry of a row. -/
theorem getElem?_row (m : DMatrix α nrows ncols) {y : ℕ} (h : y < nrows) (col : ℕ) :
    (m.row y)[col]? = m.get y col := by
  cases hcolumn : m.columns[col]? with
  | none =>
    rw [get, hcolumn, Option.bind_none, List.getElem?_eq_none_iff, m.length_row h, ← m.length_columns]
    exact List.getElem?_eq_none_iff.mp hcolumn
  | some column =>
    have hlt : y < column.length := by rwa [m.length_column column (List.mem_of_getElem? hcolumn)]
    rw [m.row_eq_map h column[y], List.getElem?_map, get, hcolumn, Option.map_some, Option.bind_some,
      List.getElem?_eq_getElem hlt, List.getD_eq_getElem _ _ hlt]

/-- A row, entry by entry. -/
theorem row_eq_map_range (m : DMatrix α nrows ncols) {y : ℕ} (h : y < nrows) (z : α) :
    m.row y = (List.range ncols).map fun col => (m.get y col).getD z := by
  refine List.ext_getElem? fun col => ?_
  rw [m.getElem?_row h, List.getElem?_map]
  by_cases hcol : col < ncols
  · have hlt : col < (m.row y).length := (m.length_row h).symm ▸ hcol
    rw [List.getElem?_range hcol, Option.map_some, ← m.getElem?_row h, List.getElem?_eq_getElem hlt]
    rfl
  · rw [List.getElem?_eq_none (by rw [List.length_range]; exact not_lt.mp hcol), Option.map_none, ← m.getElem?_row h]
    exact List.getElem?_eq_none (by rw [m.length_row h]; exact not_lt.mp hcol)

/-- The storage is column by column. -/
theorem index_eq (m : DMatrix α nrows ncols) {y : ℕ} (h : y < nrows) (col : ℕ) :
    m.columns.flatten[y + col * nrows]? = m.get y col := by
  have hhead : m.columns[col]? = (m.columns.drop col).head? := List.head?_drop.symm
  rw [Nat.add_comm, ← List.getElem?_drop, drop_flatten_uniform m.length_column, get, hhead]
  cases hdrop : m.columns.drop col with
  | nil => rfl
  | cons column rest =>
    have hmem : column ∈ m.columns := List.mem_of_mem_drop (hdrop ▸ List.mem_cons_self ..)
    have hlt : y < column.length := by rwa [m.length_column column hmem]
    rw [List.flatten_cons, List.getElem?_append_left hlt]
    rfl

/-- A matrix made column by column from another. -/
theorem column_of_columns_eq {nrows' ncols' : ℕ} {m : DMatrix α nrows ncols} {m' : DMatrix α nrows' ncols'}
    {f : List α → List α} (h : m'.columns = m.columns.map f) {col : ℕ} (hcol : col < ncols) :
    m'.column col = f (m.column col) := by
  have hlt : col < m.columns.length := m.length_columns.symm ▸ hcol
  have hlt' : col < (m.columns.map f).length := by rwa [List.length_map]
  rw [column, column, h, List.getD_eq_getElem _ _ hlt', List.getElem_map, List.getD_eq_getElem _ _ hlt]

end DMatrix

end AvailCore
