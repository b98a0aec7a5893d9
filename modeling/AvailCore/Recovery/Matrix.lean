import AvailCore.Core.DataLookup
import AvailCore.Recovery.Ark

/-!
# Dimensions and positions of the matrix

`kate/recovery/src/matrix.rs` and the cells of `data.rs`. A block is a matrix of cells,
filled row by row; extended, each column has twice as many cells, those of the data at
its even rows.

A `NonZeroU16` is a number with its bounds. The `u32` and `usize` that are computed here
from two of them alone do not overflow, and are natural numbers; where the index of a
cell, any `u32`, comes in, the arithmetic is that of the `Build`.
-/

namespace AvailCore

/-- `NonZeroU16` -/
abbrev NonZeroU16 : Type := { n : ℕ // 0 < n ∧ n < 2 ^ 16 }

theorem NonZeroU16.one_bounds : 0 < 1 ∧ 1 < 2 ^ 16 := ⟨Nat.one_pos, by decide⟩

theorem NonZeroU16.two_bounds : 0 < 2 ∧ 2 < 2 ^ 16 := ⟨Nat.two_pos, by decide⟩

/-- `NonZeroU16::new` after `u16::try_from`. -/
def NonZeroU16.tryFrom (n : ℕ) : Option NonZeroU16 := if h : 0 < n ∧ n < 2 ^ 16 then some ⟨n, h⟩ else none

/-- `a.checked_mul(b)` -/
def NonZeroU16.checkedMul (a b : NonZeroU16) : Option NonZeroU16 := NonZeroU16.tryFrom (a.val * b.val)

theorem NonZeroU16.tryFrom_eq_some {n : ℕ} {a : NonZeroU16} : NonZeroU16.tryFrom n = some a ↔ a.val = n := by
  unfold NonZeroU16.tryFrom
  split_ifs with h
  · rw [Option.some.injEq, Subtype.ext_iff, eq_comm]
  · constructor
    · intro hn
      cases hn
    · intro hn
      exact absurd (hn ▸ a.property) h

/-- `EXTENSION_FACTOR` -/
abbrev extensionFactor : ℕ := 2

/-- The position of a cell: a row, which is a `u32`, and a column, which is a `u16`. -/
@[ext]
structure Position where
  row : ℕ
  col : ℕ
  deriving DecidableEq, Repr

/-- `Position::is_extended` -/
def Position.isExtended (position : Position) : Bool := position.row % 2 == 1

/-- A cell of the extended matrix: its position and its bytes. -/
structure DataCell where
  position : Position
  data : Chunk
  deriving DecidableEq

/-- The dimensions of a matrix before extension. -/
structure Dimensions where
  rows : NonZeroU16
  cols : NonZeroU16
  deriving DecidableEq, Repr

namespace Dimensions

/-- `Dimensions::new_from` -/
def newFrom (rows cols : ℕ) : Option Dimensions := do
  let rows ← NonZeroU16.tryFrom rows
  let cols ← NonZeroU16.tryFrom cols
  return ⟨rows, cols⟩

variable (d : Dimensions)

/-- `Dimensions::height` -/
def height : ℕ := d.rows.val

/-- `Dimensions::width` -/
def width : ℕ := d.cols.val

/-- `Dimensions::size` -/
def size : ℕ := d.rows.val * d.cols.val

/-- `Dimensions::divides` -/
def divides (other : Dimensions) : Bool :=
  decide (other.cols.val % d.cols.val = 0) && decide (other.rows.val % d.rows.val = 0)

/-- `Dimensions::extend` -/
def extend (rowFactor colFactor : NonZeroU16) : Option Dimensions := do
  let rows ← d.rows.checkedMul rowFactor
  let cols ← d.cols.checkedMul colFactor
  return ⟨rows, cols⟩

/-- `Dimensions::row_byte_size` -/
def rowByteSize : ℕ := chunkSize * d.width

/-- `Dimensions::extended_rows` -/
def extendedRows : ℕ := d.rows.val * extensionFactor

/-- `Dimensions::extended_data_row`: the factor overflows when the cell is far outside the matrix. -/
def extendedDataRow {ε : Type} (b : Build) (cell : UInt32) : Run ε UInt32 :=
  b.mul (cell / UInt32.ofNat d.cols.val) (UInt32.ofNat extensionFactor)

/-- `(first..=last).step_by(EXTENSION_FACTOR)` -/
def stepRows (first last : ℕ) : List ℕ :=
  if first ≤ last then List.range' first ((last - first) / extensionFactor + 1) extensionFactor else []

/-- `Dimensions::extended_data_rows`; a range that starts after it ends has no rows. -/
def extendedDataRows {ε : Type} (b : Build) (cells : DataLookupRange) : Run ε (Option (List ℕ)) :=
  if d.size < cells.end_.toNat ∨ cells.end_ = 0 then return none
  else do
    let firstRow ← d.extendedDataRow b cells.start
    let lastRow ← d.extendedDataRow b (cells.end_ - 1)
    return some (stepRows firstRow.toNat lastRow.toNat)

/-- `Dimensions::extended_data_position`, of a cell of the matrix: the factor does not overflow. -/
def extendedDataPosition (cell : ℕ) : Position := ⟨cell / d.width * extensionFactor, cell % d.width⟩

/-- `Dimensions::extended_data_positions` -/
def extendedDataPositions (cells : DataLookupRange) : Option (List Position) :=
  if cells.end_.toNat ≤ d.size then
    some ((List.range' cells.start.toNat (cells.end_.toNat - cells.start.toNat)).map d.extendedDataPosition)
  else none

/-- `Dimensions::extended_contains` -/
def extendedContains (position : Position) : Bool :=
  decide (position.row < d.extendedRows) && decide (position.col < d.cols.val)

/-- `Dimensions::iter_data`: the cells of the data matrix, row by row. -/
def iterData : List (ℕ × ℕ) :=
  (List.range d.height).flatMap fun row => (List.range d.width).map fun col => (row, col)

/-- `Dimensions::iter_cells`: the numbers of the cells of the data matrix, column by column. -/
def iterCells : List ℕ :=
  (List.range d.width).flatMap fun col => (List.range d.height).map fun row => row * d.width + col

/-- `Dimensions::iter_extended_data_positions`: where these cells are in the extended matrix. -/
def iterExtendedDataPositions : List (ℕ × ℕ) :=
  (List.range d.height).flatMap fun row => (List.range d.width).map fun col => (row * extensionFactor, col)

/-- Rows in steps are in order, and each is there once. -/
theorem pairwise_stepRows (first last : ℕ) : (stepRows first last).Pairwise (· < ·) := by
  unfold stepRows
  split_ifs
  · apply List.pairwise_lt_range'
    exact Nat.two_pos
  · exact List.Pairwise.nil

theorem stepRows_eq_nil {first last : ℕ} : stepRows first last = [] ↔ last < first := by
  unfold stepRows
  split_ifs with hle
  · simp [hle]
  · exact iff_of_true rfl (not_le.mp hle)

/-- Between two rows of the data are the rows of the data. -/
theorem mem_stepRows {first last i : ℕ} : i ∈ stepRows (first * extensionFactor) (last * extensionFactor) ↔
    ∃ r, first ≤ r ∧ r ≤ last ∧ i = r * extensionFactor := by
  have hcount : (last * extensionFactor - first * extensionFactor) / extensionFactor = last - first := by
    rw [← Nat.sub_mul]
    exact Nat.mul_div_cancel _ Nat.two_pos
  have hle : first * extensionFactor ≤ last * extensionFactor ↔ first ≤ last := Nat.mul_le_mul_right_iff Nat.two_pos
  rw [stepRows, hcount]
  split_ifs with h
  · rw [hle] at h
    rw [List.mem_range']
    constructor
    · rintro ⟨j, hj, rfl⟩
      exact ⟨first + j, by omega, by omega, by rw [Nat.add_mul, Nat.mul_comm j]⟩
    · rintro ⟨r, hfirst, hlast, rfl⟩
      refine ⟨r - first, by omega, ?_⟩
      rw [Nat.mul_comm extensionFactor, ← Nat.add_mul, Nat.add_sub_cancel' hfirst]
  · rw [hle] at h
    refine iff_of_false List.not_mem_nil ?_
    rintro ⟨r, hfirst, hlast, -⟩
    exact h (hfirst.trans hlast)

theorem height_pos : 0 < d.height := d.rows.property.1

theorem width_pos : 0 < d.width := d.cols.property.1

theorem newFrom_eq_some {rows cols : ℕ} {d : Dimensions} :
    newFrom rows cols = some d ↔ d.rows.val = rows ∧ d.cols.val = cols := by
  simp only [newFrom, Option.bind_eq_bind, Option.bind_eq_some_iff, Option.pure_def, Option.some.injEq,
    NonZeroU16.tryFrom_eq_some]
  constructor
  · intro h
    obtain ⟨r, hr, c, hc, rfl⟩ := h
    exact ⟨hr, hc⟩
  · intro h
    exact ⟨d.rows, h.1, d.cols, h.2, rfl⟩

theorem extend_eq_some {rowFactor colFactor : NonZeroU16} {e : Dimensions} :
    d.extend rowFactor colFactor = some e ↔
      e.rows.val = d.rows.val * rowFactor.val ∧ e.cols.val = d.cols.val * colFactor.val := by
  simp only [extend, NonZeroU16.checkedMul, Option.bind_eq_bind, Option.bind_eq_some_iff, Option.pure_def,
    Option.some.injEq, NonZeroU16.tryFrom_eq_some]
  constructor
  · intro h
    obtain ⟨r, hr, c, hc, rfl⟩ := h
    exact ⟨hr, hc⟩
  · intro h
    exact ⟨e.rows, h.1, e.cols, h.2, rfl⟩

theorem extendedContains_iff {position : Position} :
    d.extendedContains position = true ↔ position.row < d.extendedRows ∧ position.col < d.width := by
  simp [extendedContains, width]

/-- The cells row by row, by their number. -/
theorem iterData_eq : d.iterData = (List.range d.size).map fun i => (i / d.width, i % d.width) := by
  have hrows : ∀ n, ((List.range n).flatMap fun row => (List.range d.width).map fun col => (row, col)) =
      (List.range (n * d.width)).map fun i => (i / d.width, i % d.width) := by
    intro n
    induction n with
    | zero => simp
    | succ n ih =>
      rw [List.range_succ, List.flatMap_append, ih, Nat.succ_mul, List.range_add, List.map_append,
        List.flatMap_cons, List.flatMap_nil, List.append_nil, List.map_map]
      congr 1
      refine List.map_congr_left fun col hcol => ?_
      have hlt := List.mem_range.mp hcol
      obtain ⟨hdiv, hmod⟩ := Chunks.mul_add_div_mod (r := n) hlt
      rw [Function.comp, hdiv, hmod]
  exact hrows d.height

/-- The items of a list, as the cells row by row. -/
theorem map_iterData {α : Type} {xs : List α} (h : xs.length = d.size) (z : α) :
    (d.iterData.map fun p => xs.getD (p.1 * d.width + p.2) z) = xs := by
  rw [d.iterData_eq, List.map_map]
  refine List.ext_getElem (by simp [h]) fun i hi hi' => ?_
  have hcell : i / d.width * d.width + i % d.width = i := Nat.div_add_mod' i d.width
  simp [hcell, List.getD_eq_getElem?_getD, hi']

theorem mem_iterData {p : ℕ × ℕ} : p ∈ d.iterData ↔ p.1 < d.height ∧ p.2 < d.width := by
  simp [iterData, Prod.ext_iff, and_comm]

/-- The row of a cell of the matrix is one of its rows. -/
theorem div_width_lt {cell : ℕ} (h : cell < d.size) : cell / d.width < d.height :=
  Nat.div_lt_of_lt_mul (h.trans_eq (Nat.mul_comm d.height d.width))

/-- In the extended matrix, it is counted without overflow. -/
theorem extendedRow_lt {cell : ℕ} (h : cell < d.size) : cell / d.width * extensionFactor < 2 ^ 32 := by
  have hrow := (d.div_width_lt h).trans d.rows.property.2
  show cell / d.width * 2 < 2 ^ 32
  omega

/-- Where a cell of the data matrix is read from, by its number. -/
theorem iterExtendedDataPositions_eq :
    d.iterExtendedDataPositions = (List.range d.size).map fun i =>
      ((d.extendedDataPosition i).row, (d.extendedDataPosition i).col) := by
  have hmap : d.iterExtendedDataPositions = d.iterData.map fun p => (p.1 * extensionFactor, p.2) := by
    simp [iterExtendedDataPositions, iterData, List.map_flatMap, Function.comp_def]
  rw [hmap, d.iterData_eq, List.map_map]
  rfl

theorem toNat_ofNat_cols : (UInt32.ofNat d.cols.val).toNat = d.width :=
  toNat_ofNat_of_lt (d.cols.property.2.trans (by decide))

/-- The row of a cell is there when it is counted without overflow. -/
theorem exists_extendedDataRow_iff {ε : Type} {b : Build} {cell : UInt32} :
    (∃ row, (d.extendedDataRow b cell : Run ε _) = .ok row) ↔
      (b = .checked → cell.toNat / d.width * extensionFactor < 2 ^ 32) := by
  have hfactor : (UInt32.ofNat extensionFactor).toNat = extensionFactor := rfl
  rw [extendedDataRow, Build.exists_mul_iff, UInt32.toNat_div, d.toNat_ofNat_cols, hfactor]

/-- A row that is there is twice the row of the data, short of what overflows. -/
theorem toNat_of_extendedDataRow {ε : Type} {b : Build} {cell row : UInt32}
    (h : (d.extendedDataRow b cell : Run ε _) = .ok row) :
    row.toNat = cell.toNat / d.width * extensionFactor % 2 ^ 32 := by
  have hfactor : (UInt32.ofNat extensionFactor).toNat = extensionFactor := rfl
  rw [Build.eq_of_mul_eq_ok h, UInt32.toNat_mul, UInt32.toNat_div, d.toNat_ofNat_cols, hfactor]

/-- The positions of a range, when it ends inside the matrix. -/
theorem extendedDataPositions_eq_some {cells : DataLookupRange} {positions : List Position} :
    d.extendedDataPositions cells = some positions ↔ cells.end_.toNat ≤ d.size ∧
      positions = (List.range' cells.start.toNat (cells.end_.toNat - cells.start.toNat)).map
        d.extendedDataPosition := by
  unfold extendedDataPositions
  split_ifs with h <;> simp [h, eq_comm]

end Dimensions

end AvailCore
