import AvailCore.Recovery.Matrix
import Mathlib.SetTheory.Cardinal.Finite

/-!
# Sizes in 32 bits

The functions of `Dimensions` in `kate/recovery/src/matrix.rs` that multiply, in the `u32`s
they do it in. All factors come from two `u16`s, a factor of 2 and the index of a cell.

## What is proved

Where a build checks its arithmetic, all of them return, and `extended_size` is the number
of positions of the extended matrix, exactly when that number fits, and no index is so far
beyond the matrix that its row does not (`sizesExact_iff`). What comes of the others is
what `Dimensions` has as natural numbers.
-/

namespace AvailCore

namespace Dimensions

variable {ε : Type} (d : Dimensions) (b : Build)

/-- `u32::from(self.rows.get())` -/
def rows32 : UInt32 := UInt32.ofNat d.rows.val

/-- `u32::from(self.cols.get())` -/
def cols32 : UInt32 := UInt32.ofNat d.cols.val

/-- `Dimensions::size::<u32>` -/
def size32 : Run ε UInt32 := b.mul d.rows32 d.cols32

/-- `Dimensions::extended_rows` -/
def extendedRows32 : Run ε UInt32 := b.mul d.rows32 (UInt32.ofNat extensionFactor)

/-- `Dimensions::extended_size` -/
def extendedSize : Run ε UInt32 := do
  let extendedRows ← d.extendedRows32 b
  b.mul extendedRows d.cols32

/-- `Dimensions::extended_data_rows` -/
def extendedDataRows32 (cells : DataLookupRange) : Run ε (Option (List ℕ)) := do
  let size ← d.size32 b
  if size < cells.end_ ∨ cells.end_ = 0 then return none
  else do
    let firstRow ← d.extendedDataRow b cells.start
    let last ← b.sub cells.end_ 1
    let lastRow ← d.extendedDataRow b last
    return some (stepRows firstRow.toNat lastRow.toNat)

/-- `Dimensions::extended_data_position`, of any index. -/
def extendedDataPosition32 (cell : UInt32) : Run ε Position := do
  let row ← d.extendedDataRow b cell
  return ⟨row.toNat, (cell % d.cols32).toNat⟩

/-- `Dimensions::extended_data_positions` -/
def extendedDataPositions32 (cells : DataLookupRange) : Run ε (Option (List Position)) := do
  let size ← d.size32 b
  if cells.end_ ≤ size then do
    let positions ← (List.range' cells.start.toNat (cells.end_.toNat - cells.start.toNat)).mapM fun cell =>
      d.extendedDataPosition32 b (UInt32.ofNat cell)
    return some positions
  else return none

/-- `Dimensions::iter_cells` -/
def iterCells32 : Run ε (List UInt32) :=
  ((List.range d.width).flatMap fun col => (List.range d.height).map fun row => (row, col)).mapM fun p => do
    let first ← b.mul (UInt32.ofNat p.1) d.cols32
    b.add first (UInt32.ofNat p.2)

/-- `Dimensions::iter_extended_data_positions` -/
def iterExtendedDataPositions32 : Run ε (List (UInt32 × ℕ)) :=
  ((List.range d.height).flatMap fun row => (List.range d.width).map fun col => (row, col)).mapM fun p => do
    let row ← b.mul (UInt32.ofNat p.1) (UInt32.ofNat extensionFactor)
    return (row, p.2)

/-! ### What fits -/

@[simp] theorem toNat_rows32 : d.rows32.toNat = d.height := toNat_ofNat_of_lt (d.rows.property.2.trans (by decide))

@[simp] theorem toNat_cols32 : d.cols32.toNat = d.width := toNat_ofNat_of_lt (d.cols.property.2.trans (by decide))

theorem height_lt : d.height < 2 ^ 16 := d.rows.property.2

theorem width_lt : d.width < 2 ^ 16 := d.cols.property.2

theorem size_eq_mul : d.size = d.height * d.width := rfl

theorem size_lt : d.size < 2 ^ 32 := by
  have hle : d.height * d.width ≤ (2 ^ 16 - 1) * (2 ^ 16 - 1) :=
    Nat.mul_le_mul (Nat.le_sub_one_of_lt d.height_lt) (Nat.le_sub_one_of_lt d.width_lt)
  have hlt : (2 ^ 16 - 1) * (2 ^ 16 - 1) < 2 ^ 32 := by decide
  exact hle.trans_lt hlt

theorem extendedRows_lt : d.extendedRows < 2 ^ 32 := by
  have hlt := d.height_lt
  show d.height * 2 < 2 ^ 32
  omega

/-- The size of the data matrix fits. -/
theorem size32_eq_ok : (d.size32 b : Run ε _) = .ok (UInt32.ofNat d.size) := by
  have hmul : d.rows32.toNat * d.cols32.toNat = d.size := by rw [toNat_rows32, toNat_cols32, size_eq_mul]
  rw [size32, Build.mul_eq_ok _ _ (hmul ▸ d.size_lt), hmul]

/-- So does the number of rows of the extended one. -/
theorem extendedRows32_eq_ok : (d.extendedRows32 b : Run ε _) = .ok (UInt32.ofNat d.extendedRows) := by
  have hmul : d.rows32.toNat * (UInt32.ofNat extensionFactor).toNat = d.extendedRows := by rw [toNat_rows32]; rfl
  rw [extendedRows32, Build.mul_eq_ok _ _ (hmul ▸ d.extendedRows_lt), hmul]

/-- Its size is there when it fits. -/
theorem extendedSize_eq_ok (h : d.extendedRows * d.width < 2 ^ 32) :
    (d.extendedSize b : Run ε _) = .ok (UInt32.ofNat (d.extendedRows * d.width)) := by
  have hmul : (UInt32.ofNat d.extendedRows).toNat * d.cols32.toNat = d.extendedRows * d.width := by
    rw [toNat_ofNat_of_lt d.extendedRows_lt, toNat_cols32]
  rw [extendedSize, extendedRows32_eq_ok, Except.ok_bind, Build.mul_eq_ok _ _ (hmul ▸ h), hmul]

theorem exists_extendedSize_iff :
    (∃ n, (d.extendedSize .checked : Run ε _) = .ok n) ↔ d.extendedRows * d.width < 2 ^ 32 := by
  rw [extendedSize, extendedRows32_eq_ok, Except.ok_bind, Build.exists_mul_iff, toNat_ofNat_of_lt d.extendedRows_lt,
    toNat_cols32]
  exact ⟨fun h => h rfl, fun h _ => h⟩

/-- The row of a cell of the matrix. -/
theorem extendedDataRow_eq_ok {cell : UInt32} (h : cell.toNat / d.width * extensionFactor < 2 ^ 32) :
    (d.extendedDataRow b cell : Run ε _) = .ok (UInt32.ofNat (cell.toNat / d.width * extensionFactor)) := by
  have hmul : (cell / UInt32.ofNat d.cols.val).toNat * (UInt32.ofNat extensionFactor).toNat =
      cell.toNat / d.width * extensionFactor := by
    rw [UInt32.toNat_div, toNat_ofNat_cols]
    rfl
  rw [extendedDataRow, Build.mul_eq_ok _ _ (hmul ▸ h), hmul]

/-- The size, and the last cell, are what they are as numbers. -/
theorem extendedDataRows32_eq (cells : DataLookupRange) :
    (d.extendedDataRows32 b cells : Run ε _) = d.extendedDataRows b cells := by
  have hsize : UInt32.ofNat d.size < cells.end_ ↔ d.size < cells.end_.toNat := by
    rw [UInt32.lt_iff_toNat_lt, toNat_ofNat_of_lt d.size_lt]
  rw [extendedDataRows32, extendedDataRows, size32_eq_ok, Except.ok_bind]
  simp only [hsize]
  split_ifs with hout
  · rfl
  · have hone : (1 : UInt32) ≤ cells.end_ :=
      UInt32.le_iff_toNat_le.mpr (toNat_pos_of_ne_zero fun hzero => hout (Or.inr hzero))
    rw [b.sub_of_le hone]
    rfl

/-- The positions of a range are there, and are those of `extendedDataPositions`. -/
theorem extendedDataPositions32_eq_ok (cells : DataLookupRange) :
    (d.extendedDataPositions32 b cells : Run ε _) = .ok (d.extendedDataPositions cells) := by
  have hsize : cells.end_ ≤ UInt32.ofNat d.size ↔ cells.end_.toNat ≤ d.size := by
    rw [UInt32.le_iff_toNat_le, toNat_ofNat_of_lt d.size_lt]
  rw [extendedDataPositions32, extendedDataPositions, size32_eq_ok, Except.ok_bind]
  simp only [hsize]
  split_ifs with hle
  · have hmapM : (List.range' cells.start.toNat (cells.end_.toNat - cells.start.toNat)).mapM (fun cell =>
        (d.extendedDataPosition32 b (UInt32.ofNat cell) : Run ε _)) =
        .ok ((List.range' cells.start.toNat (cells.end_.toNat - cells.start.toNat)).map d.extendedDataPosition) := by
      refine Except.mapM_eq_map fun cell hcell => ?_
      have hcell : cell < d.size := by
        have hrange := List.mem_range'_1.mp hcell
        omega
      have hnat : (UInt32.ofNat cell).toNat = cell := toNat_ofNat_of_lt (hcell.trans d.size_lt)
      have hrow := d.extendedRow_lt hcell
      rw [extendedDataPosition32, extendedDataRow_eq_ok _ _ (by rwa [hnat]), hnat, Except.ok_bind,
        toNat_ofNat_of_lt hrow, UInt32.toNat_mod, hnat, toNat_cols32]
      rfl
    rw [hmapM]
    rfl
  · rfl

/-- The number of a cell of the matrix is below its size. -/
theorem cell_lt {row col : ℕ} (hrow : row < d.height) (hcol : col < d.width) : row * d.width + col < d.size :=
  Chunks.mul_add_lt hrow hcol

/-- The numbers of the cells are there, and are those of `iterCells`. -/
theorem iterCells32_eq_ok : (d.iterCells32 b : Run ε _) = .ok (d.iterCells.map UInt32.ofNat) := by
  have hcells : d.iterCells = ((List.range d.width).flatMap fun col =>
      (List.range d.height).map fun row => (row, col)).map fun p => p.1 * d.width + p.2 := by
    simp only [iterCells, List.map_flatMap, List.map_map, Function.comp_def]
  rw [iterCells32, hcells, List.map_map]
  refine Except.mapM_eq_map fun p hp => ?_
  have hmem : p.1 < d.height ∧ p.2 < d.width := by
    simp only [List.mem_flatMap, List.mem_map, List.mem_range] at hp
    obtain ⟨col, hcol, row, hrow, rfl⟩ := hp
    exact ⟨hrow, hcol⟩
  have hlt := (d.cell_lt hmem.1 hmem.2).trans d.size_lt
  have hrow : (UInt32.ofNat p.1).toNat = p.1 := toNat_ofNat_of_lt (hmem.1.trans (d.height_lt.trans (by decide)))
  have hcol : (UInt32.ofNat p.2).toNat = p.2 := toNat_ofNat_of_lt (hmem.2.trans (d.width_lt.trans (by decide)))
  have hmul : (UInt32.ofNat p.1).toNat * d.cols32.toNat = p.1 * d.width := by rw [hrow, toNat_cols32]
  have hfirst : (UInt32.ofNat (p.1 * d.width)).toNat = p.1 * d.width := toNat_ofNat_of_lt (by omega)
  rw [Build.mul_eq_ok _ _ (by omega), hmul, Except.ok_bind, Build.add_eq_ok _ _ (by omega), hfirst, hcol]
  rfl

/-- So are the positions of the cells in the extended matrix. -/
theorem iterExtendedDataPositions32_eq_ok : (d.iterExtendedDataPositions32 b : Run ε _) =
    .ok (d.iterExtendedDataPositions.map fun p => (UInt32.ofNat p.1, p.2)) := by
  have hcells : d.iterExtendedDataPositions = d.iterData.map fun p => (p.1 * extensionFactor, p.2) := by
    simp only [iterExtendedDataPositions, iterData, List.map_flatMap, List.map_map, Function.comp_def]
  rw [iterExtendedDataPositions32, hcells, List.map_map]
  refine Except.mapM_eq_map fun p hp => ?_
  have hrow : (UInt32.ofNat p.1).toNat = p.1 :=
    toNat_ofNat_of_lt ((d.mem_iterData.mp hp).1.trans (d.height_lt.trans (by decide)))
  have hmul : (UInt32.ofNat p.1).toNat * (UInt32.ofNat extensionFactor).toNat = p.1 * extensionFactor := by
    rw [hrow]
    rfl
  have hlt : p.1 * extensionFactor < 2 ^ 32 := by
    have hheight := d.height_lt
    have hp := (d.mem_iterData.mp hp).1
    show p.1 * 2 < 2 ^ 32
    omega
  rw [Build.mul_eq_ok _ _ (hmul ▸ hlt), hmul]
  rfl

/-- The positions of the extended matrix, as pairs. -/
def positionEquiv : { p : Position // d.extendedContains p = true } ≃ Fin d.extendedRows × Fin d.width where
  toFun p := (⟨p.1.row, (d.extendedContains_iff.mp p.2).1⟩, ⟨p.1.col, (d.extendedContains_iff.mp p.2).2⟩)
  invFun p := ⟨⟨p.1, p.2⟩, d.extendedContains_iff.mpr ⟨p.1.isLt, p.2.isLt⟩⟩
  left_inv _ := rfl
  right_inv _ := rfl

/-- There are as many as rows times columns. -/
theorem card_positions : Nat.card { p : Position // d.extendedContains p = true } = d.extendedRows * d.width := by
  rw [Nat.card_congr d.positionEquiv, Nat.card_prod, Nat.card_fin, Nat.card_fin]

/-! ### Overflow -/

/-- Where arithmetic is checked, none overflows: for the matrix, the index of a cell and a range. -/
structure SizesExact (ε : Type) (d : Dimensions) (cell : UInt32) (cells : DataLookupRange) : Prop where
  size : ∃ n, (d.size32 .checked : Run ε _) = .ok n ∧ n.toNat = d.size
  extendedRows : ∃ n, (d.extendedRows32 .checked : Run ε _) = .ok n ∧ n.toNat = d.extendedRows
  extendedSize : ∃ n, (d.extendedSize .checked : Run ε _) = .ok n ∧
    n.toNat = Nat.card { p : Position // d.extendedContains p = true }
  extendedDataRow : ∃ row, (d.extendedDataRow .checked cell : Run ε _) = .ok row
  extendedDataRows : ∃ rows, (d.extendedDataRows32 .checked cells : Run ε _) = .ok rows
  extendedDataPositions : ∃ positions, (d.extendedDataPositions32 .checked cells : Run ε _) = .ok positions
  iterCells : ∃ cells, (d.iterCells32 .checked : Run ε _) = .ok cells
  iterExtendedDataPositions : ∃ positions, (d.iterExtendedDataPositions32 .checked : Run ε _) = .ok positions

/-- The rows of a range that is not refused are there when that of its start is. -/
theorem exists_extendedDataRows_iff {cells : DataLookupRange} :
    (∃ rows, (d.extendedDataRows32 .checked cells : Run ε _) = .ok rows) ↔
      (cells.end_ ≠ 0 → cells.end_.toNat ≤ d.size →
        cells.start.toNat / d.width * extensionFactor < 2 ^ 32) := by
  rw [extendedDataRows32_eq, extendedDataRows]
  split_ifs with hout
  · refine iff_of_true ⟨none, rfl⟩ fun hzero hle => ?_
    exact absurd hout (not_or.mpr ⟨not_lt.mpr hle, hzero⟩)
  · rw [not_or, not_lt] at hout
    have hlast : (cells.end_ - 1).toNat < d.size := by
      have hpos := toNat_pos_of_ne_zero hout.2
      rw [toNat_sub_one hout.2]
      omega
    rw [d.extendedDataRow_eq_ok .checked (d.extendedRow_lt hlast)]
    constructor
    · rintro ⟨rows, h⟩ - -
      obtain ⟨firstRow, hfirst, -⟩ := Except.bind_eq_ok.mp h
      exact (d.exists_extendedDataRow_iff).mp ⟨firstRow, hfirst⟩ rfl
    · intro h
      rw [d.extendedDataRow_eq_ok .checked (h hout.2 hout.1)]
      exact ⟨_, rfl⟩

end Dimensions

open Dimensions in
/-- **No arithmetic of the dimensions overflows** exactly when the size of the extended matrix fits, and
the index and the start of the range are not so far beyond the matrix that their rows do not. -/
theorem sizesExact_iff (ε : Type) (d : Dimensions) (cell : UInt32) (cells : DataLookupRange) :
    SizesExact ε d cell cells ↔ d.height * 2 * d.width < 2 ^ 32 ∧ cell.toNat / d.width * 2 < 2 ^ 32 ∧
      (cells.end_ ≠ 0 → cells.end_.toNat ≤ d.size → cells.start.toNat / d.width * 2 < 2 ^ 32) := by
  constructor
  · intro h
    obtain ⟨n, hn, -⟩ := h.extendedSize
    exact ⟨d.exists_extendedSize_iff.mp ⟨n, hn⟩, d.exists_extendedDataRow_iff.mp h.extendedDataRow rfl,
      d.exists_extendedDataRows_iff.mp h.extendedDataRows⟩
  · rintro ⟨hsize, hcell, hstart⟩
    exact {
      size := ⟨_, d.size32_eq_ok _, toNat_ofNat_of_lt d.size_lt⟩
      extendedRows := ⟨_, d.extendedRows32_eq_ok _, toNat_ofNat_of_lt d.extendedRows_lt⟩
      extendedSize := ⟨_, d.extendedSize_eq_ok _ hsize, (toNat_ofNat_of_lt hsize).trans d.card_positions.symm⟩
      extendedDataRow := ⟨_, d.extendedDataRow_eq_ok _ hcell⟩
      extendedDataRows := d.exists_extendedDataRows_iff.mpr hstart
      extendedDataPositions := ⟨_, d.extendedDataPositions32_eq_ok _ cells⟩
      iterCells := ⟨_, d.iterCells32_eq_ok _⟩
      iterExtendedDataPositions := ⟨_, d.iterExtendedDataPositions32_eq_ok _⟩ }

/-- The largest matrix, and the row of an index far beyond a matrix of one column. -/
theorem extendedSize_overflows :
    (Dimensions.extendedSize ⟨⟨65535, by decide⟩, ⟨65535, by decide⟩⟩ .checked : Run Unit _) = .error .panic ∧
    (Dimensions.extendedSize ⟨⟨65535, by decide⟩, ⟨65535, by decide⟩⟩ .wrapping : Run Unit _) = .ok 4294705154 ∧
    (Dimensions.extendedDataRows32 ⟨⟨1, NonZeroU16.one_bounds⟩, ⟨1, NonZeroU16.one_bounds⟩⟩ .checked ⟨2147483648, 1⟩ :
      Run Unit _) = .error .panic := by
  decide

end AvailCore
