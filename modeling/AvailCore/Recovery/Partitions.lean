import AvailCore.Foundation.Rounding
import AvailCore.Recovery.Sizes
import Mathlib.Data.Rat.Floor

/-!
# Partitions of the matrix

A light client that takes part in a network of them downloads a partition of the matrix:
one of `fraction` parts of its cells, counted row by row. `iter_extended_partition_positions`
and `iter_mcell_partition_positions` of `kate/recovery/src/matrix.rs` compute where a
partition starts and where it ends apart, in `f64`: the size of a part times its number,
rounded down, and times the next number, rounded up.

## The model

A `u32` and a `u8` are exact in `f64`; division and multiplication are rounded, within a
relative error of 2⁻⁵³. `as u32` saturates.

## What is proved

Whatever the roundings, the partitions of a matrix have no gap, from its first cell to its
last (`partitions_cover`). Where one ends and where the next starts is the same product; of
the last, two roundings lose less than one cell.
-/

namespace AvailCore

/-- `Partition` -/
structure Partition where
  number : UInt8
  fraction : UInt8
  deriving DecidableEq, Repr

/-- The arithmetic of `f64`. -/
abbrev F64 : Type := Rounding (1 / 2 ^ 53 : ℚ)

/-- `x as u32`, of a whole number. -/
def asU32 (x : ℤ) : ℕ := min x.toNat (2 ^ 32 - 1)

/-- The cells of a partition: the first, and the one past the last. -/
def partitionCells {ε : Type} (b : Build) (R : F64) (size : ℕ) (partition : Partition) : Run ε (ℕ × ℕ) := do
  let size := R.div size partition.fraction.toNat
  Run.assert (b = .wrapping ∨ partition.number ≠ 0)
  let start := asU32 ⌊R.mul size (partition.number - 1).toNat⌋
  let end_ := asU32 ⌈R.mul size partition.number.toNat⌉
  return (start, end_)

/-- The positions of cells, row by row. -/
def cellPositions (cols : ℕ) (cells : ℕ × ℕ) : List Position :=
  (List.range' cells.1 (cells.2 - cells.1)).map fun cell => ⟨cell / cols, cell % cols⟩

/-- `Dimensions::iter_extended_partition_positions` -/
def Dimensions.iterExtendedPartitionPositions {ε : Type} (d : Dimensions) (b : Build) (R : F64) (partition : Partition) :
    Run ε (List Position) := do
  let extendedSize ← d.extendedSize b
  let cells ← partitionCells b R extendedSize.toNat partition
  return cellPositions d.width cells

/-- `Dimensions::iter_mcell_partition_positions` -/
def Dimensions.iterMcellPartitionPositions {ε : Type} (d : Dimensions) (b : Build) (R : F64) (partition : Partition) :
    Run ε (List Position) := do
  let size ← d.size32 b
  let cells ← partitionCells b R size.toNat partition
  return cellPositions d.width cells

/-! ### One after another -/

theorem asU32_mono {x y : ℤ} (h : x ≤ y) : asU32 x ≤ asU32 y := min_le_min_right _ (Int.toNat_le_toNat h)

/-- Where the `n`-th of `f` parts starts. -/
def partStart (R : F64) (size f n : ℕ) : ℕ := asU32 ⌊R.mul (R.div size f) (n - 1 : ℕ)⌋

/-- Where it ends. -/
def partEnd (R : F64) (size f n : ℕ) : ℕ := asU32 ⌈R.mul (R.div size f) n⌉

section Parts

variable {ε : Type} (b : Build) (R : F64) {size : ℕ}

/-- The cells of a partition, by its number. -/
theorem partitionCells_eq {f : UInt8} {n : ℕ} (hn : 1 ≤ n) (hle : n ≤ f.toNat) :
    (partitionCells b R size ⟨UInt8.ofNat n, f⟩ : Run ε _) =
      .ok (partStart R size f.toNat n, partEnd R size f.toNat n) := by
  have hlt : n < 2 ^ 8 := hle.trans_lt f.toNat_lt
  have hnat : (UInt8.ofNat n).toNat = n := by rw [UInt8.toNat_ofNat', Nat.mod_eq_of_lt hlt]
  have hone : (1 : UInt8) ≤ UInt8.ofNat n := by rwa [UInt8.le_iff_toNat_le, hnat]
  have hsub : (UInt8.ofNat n - 1).toNat = n - 1 := by
    rw [UInt8.toNat_sub_of_le _ _ hone, hnat]
    rfl
  have hne : UInt8.ofNat n ≠ 0 := by
    intro hzero
    rw [hzero] at hnat
    exact absurd (hnat ▸ hn) (by decide)
  simp only [partitionCells, hnat, hsub, decide_eq_true (Or.inr hne : b = .wrapping ∨ UInt8.ofNat n ≠ 0)]
  rfl

theorem partitionCells_of_le {fraction number : UInt8} (hone : 1 ≤ number) (hle : number ≤ fraction) :
    (partitionCells b R size ⟨number, fraction⟩ : Run ε _) =
      .ok (partStart R size fraction.toNat number.toNat, partEnd R size fraction.toNat number.toNat) := by
  have h := @partitionCells_eq ε b R size fraction number.toNat (UInt8.le_iff_toNat_le.mp hone)
    (UInt8.le_iff_toNat_le.mp hle)
  rwa [UInt8.ofNat_toNat] at h

/-- The number after one that is not the last. -/
theorem toNat_number_add_one {fraction number : UInt8} (h : number < fraction) :
    (number + 1).toNat = number.toNat + 1 ∧ 1 ≤ number + 1 ∧ number + 1 ≤ fraction := by
  have hlt := UInt8.lt_iff_toNat_lt.mp h
  have hsucc : (number + 1).toNat = number.toNat + 1 := by
    rw [UInt8.toNat_add]
    exact Nat.mod_eq_of_lt (Nat.succ_lt_succ_iff.mpr hlt |>.trans_le fraction.toNat_lt)
  rw [UInt8.le_iff_toNat_le, UInt8.le_iff_toNat_le, hsucc]
  exact ⟨rfl, Nat.le_add_left 1 _, hlt⟩

@[simp] theorem partStart_one (f : ℕ) : partStart R size f 1 = 0 := by
  rw [partStart, Nat.sub_self, Nat.cast_zero, Rounding.mul_zero, Int.floor_zero]
  rfl

/-- The next part starts no later than the part ends, as it is the same product. -/
theorem partStart_succ_le (f n : ℕ) : partStart R size f (n + 1) ≤ partEnd R size f n := by
  rw [partStart, Nat.add_sub_cancel]
  exact asU32_mono (Int.floor_le_ceil _)

/-- **The last part ends no earlier than the cells do**: the product is less by less than one. -/
theorem le_partEnd (hsize : size < 2 ^ 32) {f : ℕ} (hf : 0 < f) : size ≤ partEnd R size f f := by
  have hbound := R.le_mul_div (by norm_num) (Nat.cast_nonneg size) (Nat.cast_pos.mpr hf : (0 : ℚ) < f)
  have hcast : (size : ℚ) < 2 ^ 32 := by exact_mod_cast hsize
  have hceil : (size : ℤ) ≤ ⌈R.mul (R.div size f) f⌉ := by
    rw [Int.le_ceil_iff, Int.cast_natCast]
    refine lt_of_lt_of_le ?_ hbound
    nlinarith
  rw [partEnd, asU32, le_min_iff]
  refine ⟨?_, Nat.le_sub_one_of_lt hsize⟩
  rw [← Int.toNat_natCast size]
  exact Int.toNat_le_toNat hceil

/-- Every cell is in one of the parts. -/
theorem exists_part (hsize : size < 2 ^ 32) {f c : ℕ} (hf : 1 ≤ f) (hc : c < size) :
    ∃ n, 1 ≤ n ∧ n ≤ f ∧ partStart R size f n ≤ c ∧ c < partEnd R size f n :=
  exists_part_of_lt (partStart_one R f) (fun n _ => partStart_succ_le R f n) hf
    (hc.trans_le (le_partEnd R hsize hf))

/-- The positions of a range of cells, in their matrix. -/
theorem mem_cellPositions {cols : ℕ} {cells : ℕ × ℕ} {p : Position} (hcol : p.col < cols) :
    p ∈ cellPositions cols cells ↔ cells.1 ≤ p.row * cols + p.col ∧ p.row * cols + p.col < cells.2 := by
  obtain ⟨hdiv, hmod⟩ := Chunks.mul_add_div_mod (r := p.row) hcol
  rw [cellPositions, List.mem_map]
  constructor
  · rintro ⟨cell, hcell, rfl⟩
    dsimp only
    rw [Nat.div_add_mod']
    have hrange := List.mem_range'_1.mp hcell
    omega
  · rintro ⟨hstart, hend⟩
    refine ⟨p.row * cols + p.col, List.mem_range'_1.mpr (by omega), ?_⟩
    rw [hdiv, hmod]

/-- The partitions of a matrix: each lists its cells, from the first cell on and with no gap from one to
the next, and every position is in one of them. -/
structure PartitionsCover {ε : Type} (b : Build) (R : F64) (size cols : ℕ) (fraction : UInt8)
    (positions : Partition → Run ε (List Position)) (contains : Position → Prop) : Prop where
  listed : ∀ number, 1 ≤ number → number ≤ fraction → ∃ cells,
    (partitionCells b R size ⟨number, fraction⟩ : Run ε _) = .ok cells ∧
      positions ⟨number, fraction⟩ = .ok (cellPositions cols cells)
  first : ∃ end_, (partitionCells b R size ⟨1, fraction⟩ : Run ε _) = .ok (0, end_)
  next : ∀ number, 1 ≤ number → number < fraction → ∃ cells cells',
    (partitionCells b R size ⟨number, fraction⟩ : Run ε _) = .ok cells ∧
      (partitionCells b R size ⟨number + 1, fraction⟩ : Run ε _) = .ok cells' ∧ cells'.1 ≤ cells.2
  covers : ∀ p, contains p → ∃ number, 1 ≤ number ∧ number ≤ fraction ∧
    ∃ listed, positions ⟨number, fraction⟩ = .ok listed ∧ p ∈ listed

/-- Positions listed from these cells cover the matrix. -/
theorem partitionsCover_of_eq {rows cols : ℕ} (hsize : rows * cols < 2 ^ 32) {fraction : UInt8} (hfraction : fraction ≠ 0)
    {positions : Partition → Run ε (List Position)} {contains : Position → Prop}
    (hpositions : ∀ partition, positions partition = (do
      let cells ← partitionCells b R (rows * cols) partition
      return cellPositions cols cells))
    (hcontains : ∀ p, contains p → p.row < rows ∧ p.col < cols) :
    PartitionsCover b R (rows * cols) cols fraction positions contains := by
  have hpos : 1 ≤ fraction.toNat := by
    apply Nat.one_le_iff_ne_zero.mpr
    intro hzero
    exact hfraction (UInt8.toNat_inj.mp hzero)
  refine ⟨fun number hone hle => ⟨_, partitionCells_of_le b R hone hle, ?_⟩,
    ⟨partEnd R (rows * cols) fraction.toNat 1, ?_⟩, fun number hone hlt => ?_, fun p hp => ?_⟩
  · rw [hpositions, partitionCells_of_le b R hone hle]
    rfl
  · rw [partitionCells_of_le b R (UInt8.le_refl 1) (UInt8.le_iff_toNat_le.mpr hpos),
      show (1 : UInt8).toNat = 1 from rfl, partStart_one]
  · obtain ⟨hsucc, hone', hle'⟩ := toNat_number_add_one hlt
    refine ⟨_, _, partitionCells_of_le b R hone (UInt8.le_of_lt hlt), partitionCells_of_le b R hone' hle', ?_⟩
    rw [hsucc]
    exact partStart_succ_le R _ _
  · obtain ⟨hrow, hcol⟩ := hcontains p hp
    obtain ⟨n, hn, hle, hstart, hend⟩ := exists_part R hsize hpos (Chunks.mul_add_lt hrow hcol)
    have hnat : (UInt8.ofNat n).toNat = n := by
      rw [UInt8.toNat_ofNat', Nat.mod_eq_of_lt (hle.trans_lt fraction.toNat_lt)]
    have hone : (1 : UInt8) ≤ UInt8.ofNat n := by rwa [UInt8.le_iff_toNat_le, hnat]
    have hle' : UInt8.ofNat n ≤ fraction := by rwa [UInt8.le_iff_toNat_le, hnat]
    refine ⟨UInt8.ofNat n, hone, hle', cellPositions cols (partStart R (rows * cols) fraction.toNat n,
      partEnd R (rows * cols) fraction.toNat n), ?_, (mem_cellPositions hcol).mpr ⟨hstart, hend⟩⟩
    rw [hpositions, partitionCells_eq b R hn hle]
    rfl

end Parts

/-- **The partitions cover the matrix**, extended and not, with no gap, whatever the roundings. -/
theorem partitions_cover (ε : Type) (b : Build) (R : F64) (d : Dimensions) (hsize : d.extendedRows * d.width < 2 ^ 32)
    (fraction : UInt8) (hfraction : fraction ≠ 0) :
    PartitionsCover b R (d.extendedRows * d.width) d.width fraction
      (fun partition => (d.iterExtendedPartitionPositions b R partition : Run ε _))
      (fun p => d.extendedContains p = true) ∧
    PartitionsCover b R d.size d.width fraction (fun partition => (d.iterMcellPartitionPositions b R partition : Run ε _))
      fun p => p.row < d.height ∧ p.col < d.width := by
  constructor
  · refine partitionsCover_of_eq b R hsize hfraction (fun partition => ?_) fun p => d.extendedContains_iff.mp
    rw [Dimensions.iterExtendedPartitionPositions, d.extendedSize_eq_ok b hsize, Except.ok_bind, toNat_ofNat_of_lt hsize]
  · refine partitionsCover_of_eq b R d.size_lt hfraction (fun partition => ?_) fun p hp => hp
    rw [Dimensions.iterMcellPartitionPositions, d.size32_eq_ok, Except.ok_bind, toNat_ofNat_of_lt d.size_lt]
    rfl

/-- The extended matrix of one row of four cells, in 20 parts, with exact arithmetic. -/
theorem partitions_cover_twenty :
    PartitionsCover .checked (Rounding.exact (by norm_num)) 8 4 20
      (fun partition => (Dimensions.iterExtendedPartitionPositions ⟨⟨1, by decide⟩, ⟨4, by decide⟩⟩ .checked
        (Rounding.exact (by norm_num)) partition : Run Unit _))
      fun p => Dimensions.extendedContains ⟨⟨1, by decide⟩, ⟨4, by decide⟩⟩ p = true :=
  (partitions_cover Unit .checked (Rounding.exact (by norm_num)) ⟨⟨1, by decide⟩, ⟨4, by decide⟩⟩ (by decide) 20
    (by decide)).1

end AvailCore
