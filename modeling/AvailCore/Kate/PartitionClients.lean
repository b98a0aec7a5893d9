import AvailCore.Kate.VerifiedBlocks
import AvailCore.Recovery.Partitions

/-!
# Clients that hold partitions

In a network of light clients each holds a partition of the extended matrix, as in
`AvailCore.Recovery.Partitions`: of its cells, or of the blocks of cells that come with one
proof. Not all of them need to be there: the matrix is extended so that half of each column
is enough.

## The model

The cells of the clients are gathered, each position once: neighbouring partitions may
share a cell, and `reconstruct_extrinsics` refuses cells in one position. A last partition
may list a position past the matrix, for which there is no cell and no block.

## What is proved

In spite of the roundings, a partition starts no later, and ends no earlier, than the
fraction that it stands for (`partStart_succ_le_of_lt`, `lt_partEnd`). So consecutive
partitions that are half of all have half of each column (`exists_rows_of_partitions`), and
what was published is reconstructed from them, unless a cell or an item is forged: from their
cells (`reconstructExtrinsics_partitions`), and from a batch of their blocks
(`reconstructExtrinsics_blockPartitions`) when a block is no whole column.
-/

namespace AvailCore

variable {C P : Type}

/-! ### A partition and its fraction -/

section Parts

variable (R : F64) {size : ℕ} (hsize : size < 2 ^ 32) {f : ℕ} (hf : 0 < f) (hfraction : f < 2 ^ 8) {m : ℕ} (hm : m ≤ f)
include hsize hf hm

/-- **The roundings together are less than a part of a cell.** -/
theorem abs_product_sub_lt : |R.mul (R.div size f) m - size * m / f| < 1 / 2 ^ 8 := by
  have hpos : (0 : ℚ) < f := Nat.cast_pos.mpr hf
  have hlow := R.le_mul_div_mul (by norm_num) (Nat.cast_nonneg size) hpos (Nat.cast_nonneg m)
  have hhigh := R.mul_div_mul_le (by norm_num) (Nat.cast_nonneg size) hpos (Nat.cast_nonneg m) (by norm_num)
  have hexact : (size : ℚ) / f * m = size * m / f := div_mul_eq_mul_div ..
  have hle : (size : ℚ) * m / f ≤ 2 ^ 32 := by
    rw [div_le_iff₀ hpos]
    exact_mod_cast Nat.mul_le_mul hsize.le hm
  have hnonneg : (0 : ℚ) ≤ size * m / f := by positivity
  rw [hexact] at hlow hhigh
  rw [abs_lt]
  constructor <;> norm_num at hlow hhigh ⊢ <;> linarith

include hfraction

/-- **A part ends no earlier than its fraction of the cells.** -/
theorem lt_partEnd {c : ℕ} (h : c * f < size * m) : c < partEnd R size f m := by
  have hpos : (0 : ℚ) < f := Nat.cast_pos.mpr hf
  have hround := (abs_lt.mp (abs_product_sub_lt R hsize hf hm)).1
  have hpart : (1 : ℚ) / 2 ^ 8 < 1 / f := one_div_lt_one_div_of_lt hpos (by exact_mod_cast hfraction)
  have hexact : (c : ℚ) + 1 / f ≤ size * m / f := by
    rw [← sub_nonneg]
    have hcast : (c : ℚ) * f + 1 ≤ size * m := by exact_mod_cast h
    have heq : (size : ℚ) * m / f - (c + 1 / f) = (size * m - (c * f + 1)) / f := by
      field_simp
    rw [heq]
    exact div_nonneg (sub_nonneg.mpr hcast) hpos.le
  have hceil : (c : ℤ) < ⌈R.mul (R.div size f) m⌉ := by
    rw [Int.lt_ceil, Int.cast_natCast]
    linarith
  have hcell : c < size := lt_of_mul_lt_mul_right (h.trans_le (Nat.mul_le_mul_left size hm)) (Nat.zero_le f)
  rw [partEnd, asU32, lt_min_iff]
  exact ⟨by omega, by omega⟩

/-- **And the next starts no later.** -/
theorem partStart_succ_le_of_lt {c : ℕ} (h : size * m < (c + 1) * f) : partStart R size f (m + 1) ≤ c := by
  have hpos : (0 : ℚ) < f := Nat.cast_pos.mpr hf
  have hround := (abs_lt.mp (abs_product_sub_lt R hsize hf hm)).2
  have hpart : (1 : ℚ) / 2 ^ 8 < 1 / f := one_div_lt_one_div_of_lt hpos (by exact_mod_cast hfraction)
  have hexact : (size : ℚ) * m / f ≤ c + 1 - 1 / f := by
    rw [← sub_nonneg]
    have hcast : (size : ℚ) * m + 1 ≤ (c + 1) * f := by exact_mod_cast h
    have heq : (c : ℚ) + 1 - 1 / f - size * m / f = ((c + 1) * f - (size * m + 1)) / f := by
      field_simp
      ring
    rw [heq]
    exact div_nonneg (sub_nonneg.mpr hcast) hpos.le
  have hfloor : ⌊R.mul (R.div size f) m⌋ < (c : ℤ) + 1 := by
    rw [Int.floor_lt]
    push_cast
    linarith
  rw [partStart, Nat.add_sub_cancel, asU32]
  exact (min_le_left _ _).trans (by omega)

omit hm in
/-- A cell that is in the fractions of consecutive parts is in one of them. -/
theorem exists_part_of_fraction {first last c : ℕ} (hone : 1 ≤ first) (horder : first ≤ last) (hlast : last ≤ f)
    (hfrom : size * (first - 1) < (c + 1) * f) (hto : c * f < size * last) :
    ∃ n, first ≤ n ∧ n ≤ last ∧ partStart R size f n ≤ c ∧ c < partEnd R size f n := by
  have hstart := partStart_succ_le_of_lt R hsize hf hfraction (by omega) hfrom
  rw [Nat.sub_add_cancel hone] at hstart
  have hend := lt_partEnd R hsize hf hfraction hlast hto
  exact exists_part_between horder hstart (fun n _ => partStart_succ_le R f n) hend

end Parts

/-! ### Half of each column -/

/-- Of consecutive cells that are half of a matrix, counted row by row, half of each column: the rows from one on. -/
theorem exists_rows_of_half {size rows cols : ℕ} (hsize : size = 2 * (rows * cols)) {f n k col : ℕ} (hf : 0 < f)
    (hcol : col < cols) (hhalf : f ≤ 2 * k) : ∃ row, ∀ i < rows,
      size * n < ((row + i) * cols + col + 1) * f ∧ ((row + i) * cols + col) * f < size * (n + k) := by
  -- the first of the cells, and the first row in which the column is not before it
  have hfloor := Nat.div_add_mod' (size * n) f
  have hmod := Nat.mod_lt (size * n) hf
  have hrow := Nat.div_add_mod' (size * n / f + (cols - 1 - col)) cols
  have hrowmod := Nat.mod_lt (size * n / f + (cols - 1 - col)) ((Nat.zero_le col).trans_lt hcol)
  generalize size * n / f = q at hfloor hrow hrowmod
  generalize (q + (cols - 1 - col)) / cols = row at hrow
  refine ⟨row, fun i hi => ?_⟩
  have hfrom : q ≤ (row + i) * cols + col := by
    rw [Nat.add_mul]
    omega
  have hto : (row + i) * cols + col + 1 ≤ q + rows * cols := by
    have hrows : (i + 1) * cols ≤ rows * cols := Nat.mul_le_mul_right cols hi
    rw [Nat.add_mul] at hrows ⊢
    omega
  constructor
  · calc size * n < (q + 1) * f := by
          rw [Nat.add_mul]
          omega
      _ ≤ ((row + i) * cols + col + 1) * f := Nat.mul_le_mul_right f (Nat.succ_le_succ hfrom)
  · have hcells : rows * cols * f ≤ size * k := by
      calc rows * cols * f ≤ rows * cols * (2 * k) := Nat.mul_le_mul_left _ hhalf
        _ = size * k := by
          rw [hsize]
          ring
    calc ((row + i) * cols + col) * f < ((row + i) * cols + col + 1) * f :=
          Nat.mul_lt_mul_of_pos_right (Nat.lt_succ_self _) hf
      _ ≤ (q + rows * cols) * f := Nat.mul_le_mul_right f hto
      _ ≤ size * (n + k) := by
          rw [Nat.add_mul, Nat.mul_add]
          omega

/-- **Consecutive partitions that are half of all list half of each column** of their matrix. -/
theorem exists_rows_of_partitions {ε : Type} (b : Build) (R : F64) {size rows cols : ℕ}
    (hsize : size = 2 * (rows * cols)) (hlt : size < 2 ^ 32) {fraction first last : UInt8} (hone : 1 ≤ first)
    (horder : first ≤ last) (hlast : last ≤ fraction) (hhalf : fraction.toNat ≤ 2 * (last.toNat - first.toNat + 1))
    {positions : Partition → Run ε (List Position)}
    (hpositions : ∀ partition, positions partition = (do
      let cells ← partitionCells b R size partition
      return cellPositions cols cells))
    {col : ℕ} (hcol : col < cols) : ∃ row, ∀ i < rows, row + i < 2 * rows ∧
      ∃ number, first ≤ number ∧ number ≤ last ∧ ∃ listed, positions ⟨number, fraction⟩ = .ok listed ∧
        ⟨row + i, col⟩ ∈ listed := by
  rw [UInt8.le_iff_toNat_le] at hone horder hlast
  have hone' : 1 ≤ first.toNat := hone
  have hf : 0 < fraction.toNat := by omega
  obtain ⟨row, hrow⟩ := @exists_rows_of_half _ _ _ hsize fraction.toNat (first.toNat - 1)
    (last.toNat - first.toNat + 1) col hf hcol hhalf
  refine ⟨row, fun i hi => ?_⟩
  obtain ⟨hfrom, hto⟩ := hrow i hi
  have hsum : first.toNat - 1 + (last.toNat - first.toNat + 1) = last.toNat := by omega
  rw [hsum] at hto
  obtain ⟨n, hn, hle, hcell⟩ := exists_part_of_fraction R hlt hf fraction.toNat_lt hone' horder hlast hfrom hto
  constructor
  · -- the cells of the partitions are in the matrix
    by_contra hout
    have hpast : size ≤ (row + i) * cols + col := by
      calc size = 2 * rows * cols := by rw [hsize, Nat.mul_assoc]
        _ ≤ (row + i) * cols := Nat.mul_le_mul_right cols (not_lt.mp hout)
        _ ≤ (row + i) * cols + col := Nat.le_add_right ..
    have hfar := Nat.mul_le_mul hpast hlast
    omega
  · have hnat : (UInt8.ofNat n).toNat = n := by
      rw [UInt8.toNat_ofNat', Nat.mod_eq_of_lt (hle.trans_lt last.toNat_lt)]
    refine ⟨UInt8.ofNat n, by rwa [UInt8.le_iff_toNat_le, hnat], by rwa [UInt8.le_iff_toNat_le, hnat],
      cellPositions cols (partStart R size fraction.toNat n, partEnd R size fraction.toNat n), ?_,
      (mem_cellPositions hcol).mpr hcell⟩
    rw [hpositions, partitionCells_eq b R (hone'.trans hn) (hle.trans hlast)]
    rfl

/-- As many cells of a column as rows are held of it. -/
theorem le_length_inColumn {cells : List DataCell} {col n : ℕ} (row : ℕ)
    (h : ∀ i < n, (⟨row + i, col⟩ : Position) ∈ cells.map DataCell.position) : n ≤ (inColumn cells col).length := by
  have hdistinct : ((List.range n).map fun i => (⟨row + i, col⟩ : Position)).Nodup :=
    List.nodup_range.map fun i j h => Nat.add_left_cancel (congrArg Position.row h)
  have hsub : ((List.range n).map fun i => (⟨row + i, col⟩ : Position)) ⊆
      (inColumn cells col).map DataCell.position := by
    intro p hp
    obtain ⟨i, hi, rfl⟩ := List.mem_map.mp hp
    obtain ⟨c, hc, hposition⟩ := List.mem_map.mp (h i (List.mem_range.mp hi))
    refine List.mem_map.mpr ⟨c, List.mem_filter.mpr ⟨hc, ?_⟩, hposition⟩
    exact decide_eq_true (congrArg Position.col hposition)
  have hlength := (List.subperm_of_subset hdistinct hsub).length_le
  rwa [List.length_map, List.length_map, List.length_range] at hlength

/-- Half of each column is enough, of cells that the grid has. -/
theorem enoughOrNone_of_columns {A : Ark} {g e : EvaluationGrid}
    (he : g.extendColumns A ⟨extensionFactor, by decide⟩ = .ok e) {cells : List DataCell}
    (hcells : ∀ c ∈ cells, e.HasCell A c) (hnodup : (cells.map DataCell.position).Nodup)
    (henough : ∀ col < g.dims.width, g.dims.height ≤ (inColumn cells col).length) : EnoughOrNone g.dims cells := by
  refine ⟨hnodup, fun col hne => henough col ?_⟩
  obtain ⟨-, hwidth, -⟩ := exists_columnDomains_of_extendColumns he
  obtain ⟨c, hc⟩ := List.exists_mem_of_ne_nil _ hne
  obtain ⟨hc, hposition⟩ := List.mem_filter.mp hc
  obtain ⟨s, hs, -⟩ := hcells c hc
  rw [← of_decide_eq_true hposition, ← hwidth]
  exact (DMatrix.lt_of_get_eq_some hs).2

/-! ### Partitions of cells -/

/-- The cells hold the positions of these partitions that are in the matrix. -/
def HoldsPartitions (b : Build) (R : F64) (d : Dimensions) (fraction first last : UInt8) (positions : List Position) :
    Prop :=
  ∀ number, first ≤ number → number ≤ last → ∀ listed,
    (d.iterExtendedPartitionPositions b R ⟨number, fraction⟩ : Run Unit _) = .ok listed →
      ∀ p ∈ listed, d.extendedContains p = true → p ∈ positions

/-- So there are enough cells of each column. -/
theorem height_le_inColumn_of_partitions {b : Build} {R : F64} {d : Dimensions}
    (hsize : d.extendedRows * d.width < 2 ^ 32) {fraction first last : UInt8} (hone : 1 ≤ first)
    (horder : first ≤ last) (hlast : last ≤ fraction) (hhalf : fraction.toNat ≤ 2 * (last.toNat - first.toNat + 1))
    {cells : List DataCell} (hheld : HoldsPartitions b R d fraction first last (cells.map DataCell.position)) {col : ℕ}
    (hcol : col < d.width) : d.height ≤ (inColumn cells col).length := by
  have hrows : d.extendedRows = 2 * d.height := Nat.mul_comm ..
  have hcells : d.extendedRows * d.width = 2 * (d.height * d.width) := by rw [hrows, Nat.mul_assoc]
  have hpositions : ∀ partition, (d.iterExtendedPartitionPositions b R partition : Run Unit _) = (do
      let cells ← partitionCells b R (d.extendedRows * d.width) partition
      return cellPositions d.width cells) := by
    intro partition
    rw [Dimensions.iterExtendedPartitionPositions, d.extendedSize_eq_ok b hsize, Except.ok_bind,
      toNat_ofNat_of_lt hsize]
  obtain ⟨row, hrow⟩ := exists_rows_of_partitions b R hcells hsize hone horder hlast hhalf hpositions hcol
  refine le_length_inColumn row fun i hi => ?_
  obtain ⟨hin, number, hfirst, hnumber, listed, hlisted, hmem⟩ := hrow i hi
  rw [← hrows] at hin
  exact hheld number hfirst hnumber listed hlisted _ hmem (d.extendedContains_iff.mpr ⟨hin, hcol⟩)

/-- **Consecutive partitions that are half of all give what was published**, whoever holds them, and whatever the
roundings, unless one of their cells is forged. -/
theorem reconstructExtrinsics_partitions {A : Ark} (hA : A.HasHalves) (Rt : Runtime) (K : Codec AppData) (rng : Rng)
    (S : CellScheme C P) {extrinsics : List AppExtrinsic} {minWidth maxWidth maxHeight : ℕ} {rngSeed : Seed}
    {g e : EvaluationGrid}
    (hg : EvaluationGrid.fromExtrinsics A K rng extrinsics minWidth maxWidth maxHeight rngSeed = .ok g)
    (he : g.extendColumns A ⟨extensionFactor, by decide⟩ = .ok e) (hlen : g.lookup.len.toNat * chunkSize < 2 ^ 32)
    {commitments : List (List UInt8)} (hcommit : e.commitmentsBytes A S.toCommitter = .ok commitments)
    (hopens : e.Opens A S) (b : Build) (R : F64)
    (hsize : g.dims.extendedRows * g.dims.width < 2 ^ 32) {fraction first last : UInt8} (hone : 1 ≤ first)
    (horder : first ≤ last) (hlast : last ≤ fraction) (hhalf : fraction.toNat ≤ 2 * (last.toNat - first.toNat + 1))
    {cells : List SingleCell} (hcells : ∀ c ∈ cells, Sampled A S g.dims commitments c)
    (hnodup : (cells.map SingleCell.position).Nodup)
    (hheld : HoldsPartitions b R g.dims fraction first last (cells.map SingleCell.position)) :
    (∃ c ∈ cells, Forged A S e commitments c) ∨
    reconstructExtrinsics A Rt K g.lookup g.dims (cells.map SingleCell.toDataCell) = .ok (groupsOf extrinsics) := by
  obtain ⟨-, hcarries⟩ := EvaluationGrid.carries_of_fromExtrinsics hg
  obtain ⟨-, hwidth, -⟩ := exists_columnDomains_of_extendColumns he
  refine (forged_or_hasCell hcommit hopens hwidth hcells).imp_right fun hvalue => ?_
  rw [← map_position_toDataCell] at hnodup hheld
  have henough : ∀ col < g.dims.width, g.dims.height ≤ (inColumn (cells.map SingleCell.toDataCell) col).length :=
    fun col hcol => height_le_inColumn_of_partitions hsize hone horder hlast hhalf hheld hcol
  have hpublished := (reconstructExtrinsics_published hA Rt hcarries he hlen hvalue fun col hcol =>
    List.length_pos_iff.mp (g.dims.height_pos.trans_le (henough col hcol))).1
  rw [map_fst_chunkedGroups] at hpublished
  exact hpublished (enoughOrNone_of_columns he hvalue hnodup henough)

/-- The positions of the last two of three partitions, which share one. -/
def lastPositions : List Position :=
  [⟨1, 1⟩, ⟨1, 2⟩, ⟨1, 3⟩, ⟨2, 0⟩, ⟨2, 1⟩, ⟨2, 2⟩, ⟨2, 3⟩, ⟨3, 0⟩, ⟨3, 1⟩, ⟨3, 2⟩, ⟨3, 3⟩]

theorem holdsPartitions_lastPositions :
    HoldsPartitions .checked (Rounding.exact (by norm_num)) twoAppsGrid.dims 3 2 3 lastPositions := by
  intro number hfirst hlast listed hlisted p hp _
  have hnumber : number = 2 ∨ number = 3 := by
    rw [UInt8.le_iff_toNat_le] at hfirst hlast
    have htwo : (2 : UInt8).toNat = 2 := rfl
    have hthree : (3 : UInt8).toNat = 3 := rfl
    rw [← UInt8.toNat_inj, ← UInt8.toNat_inj]
    omega
  rcases hnumber with rfl | rfl
  · have hcells : (Dimensions.iterExtendedPartitionPositions twoAppsGrid.dims .checked (Rounding.exact (by norm_num))
        ⟨2, 3⟩ : Run Unit _) = .ok [⟨1, 1⟩, ⟨1, 2⟩, ⟨1, 3⟩, ⟨2, 0⟩, ⟨2, 1⟩, ⟨2, 2⟩] := by decide +kernel
    rw [hcells, Except.ok.injEq] at hlisted
    have hin : ∀ p ∈ [(⟨1, 1⟩ : Position), ⟨1, 2⟩, ⟨1, 3⟩, ⟨2, 0⟩, ⟨2, 1⟩, ⟨2, 2⟩], p ∈ lastPositions := by decide
    exact hin p (hlisted ▸ hp)
  · have hcells : (Dimensions.iterExtendedPartitionPositions twoAppsGrid.dims .checked (Rounding.exact (by norm_num))
        ⟨3, 3⟩ : Run Unit _) = .ok [⟨2, 2⟩, ⟨2, 3⟩, ⟨3, 0⟩, ⟨3, 1⟩, ⟨3, 2⟩, ⟨3, 3⟩] := by decide +kernel
    rw [hcells, Except.ok.injEq] at hlisted
    have hin : ∀ p ∈ [(⟨2, 2⟩ : Position), ⟨2, 3⟩, ⟨3, 0⟩, ⟨3, 1⟩, ⟨3, 2⟩, ⟨3, 3⟩], p ∈ lastPositions := by decide
    exact hin p (hlisted ▸ hp)

theorem reconstructExtrinsics_partitions_two : ∃ cells : List SingleCell,
    cells.map SingleCell.position = lastPositions ∧
    (∀ c ∈ cells, Sampled bls12381 (CellScheme.atPoint 5) twoAppsGrid.dims twoAppsCommitments c) ∧
    reconstructExtrinsics bls12381 Runtime.plain scaleAppData twoAppsGrid.lookup twoAppsGrid.dims
      (cells.map SingleCell.toDataCell) = .ok (groupsOf twoApps) := by
  obtain ⟨cells, hpositions, hsampled, hvalue⟩ := @exists_sampled_twoApps lastPositions (by decide)
  have hnodup : (cells.map SingleCell.position).Nodup := by
    rw [hpositions]
    decide
  have hrun := reconstructExtrinsics_partitions bls12381_hasHalves Runtime.plain scaleAppData _ (CellScheme.atPoint 5)
    (fromExtrinsics_twoApps (List.Vector.replicate 32 0)) extendColumns_twoApps (by decide) commitmentsBytes_twoApps
    (opens_atPoint 5 _) .checked (Rounding.exact (by norm_num)) (by decide) (by decide : (1 : UInt8) ≤ 2)
    (by decide : (2 : UInt8) ≤ 3) (by decide : (3 : UInt8) ≤ 3) (by decide) hsampled hnodup
    (hpositions ▸ holdsPartitions_lastPositions)
  exact ⟨cells, hpositions, hsampled, hrun.resolve_left (not_exists_forged hvalue)⟩

/-! ### Partitions of blocks -/

/-- The batch has an item for each block of the grid that these partitions list. -/
def HasPartitions (b : Build) (R : F64) (grid target d : Dimensions) (fraction first last : UInt8)
    (items : List ProofItem) : Prop :=
  ∀ number, first ≤ number → number ≤ last → ∀ listed,
    (d.iterMcellPartitionPositions b R ⟨number, fraction⟩ : Run Unit _) = .ok listed →
      ∀ p ∈ listed, p.row < d.height → p.col < d.width → ∃ item ∈ items, ∃ block,
        multiproofBlock p.col p.row grid target = some block ∧ BlockItem grid target item block

/-- The blocks of an extended grid are in an even number of rows, if more than one row is asked for. -/
theorem two_dvd_height_of_multiproofDims {A : Ark} {g e : EvaluationGrid}
    (he : g.extendColumns A ⟨extensionFactor, by decide⟩ = .ok e) {target d : Dimensions}
    (hdims : multiproofDims e.dims target = some d) (htarget : 2 ≤ target.height) : 2 ∣ d.height := by
  obtain ⟨hheight, -, k, -, -, hk, -⟩ := exists_columnDomains_of_extendColumns he
  have hlong : e.dims.height = 2 ^ (k + 1) := by rw [hheight, hk, pow_succ, extensionFactor]
  have hmin : d.height = min e.dims.height target.height := by
    simp only [multiproofDims] at hdims
    split_ifs at hdims
    cases hdims
    rw [Dimensions.height, Dimensions.height, Dimensions.height]
    exact Monotone.map_min (f := Subtype.val) (fun _ _ h => h)
  obtain ⟨j, -, hj⟩ := (Nat.dvd_prime_pow Nat.prime_two).mp (hlong ▸ (multiproofDims_eq_some hdims).2)
  have htwo : 2 ≤ e.dims.height := by
    rw [hlong, pow_succ]
    exact Nat.le_mul_of_pos_left 2 (Nat.two_pow_pos k)
  cases j with
  | zero =>
    rw [pow_zero] at hj
    omega
  | succ j => exact hj ▸ Dvd.intro_left (2 ^ j) (pow_succ 2 j).symm

/-- Half of the rows of blocks have as many rows of cells as the grid before it was extended. -/
theorem exists_half_of_multiproofDims {A : Ark} {g e : EvaluationGrid}
    (he : g.extendColumns A ⟨extensionFactor, by decide⟩ = .ok e) {target d : Dimensions}
    (hdims : multiproofDims e.dims target = some d) (htarget : 2 ≤ target.height) :
    ∃ half, d.height = 2 * half ∧ half * (e.dims.height / d.height) = g.dims.height := by
  obtain ⟨hheight, -, -⟩ := exists_columnDomains_of_extendColumns he
  obtain ⟨half, hhalf⟩ := two_dvd_height_of_multiproofDims he hdims htarget
  refine ⟨half, hhalf, Nat.eq_of_mul_eq_mul_left Nat.two_pos ?_⟩
  calc 2 * (half * (e.dims.height / d.height)) = d.height * (e.dims.height / d.height) := by
        rw [← Nat.mul_assoc, ← hhalf]
    _ = e.dims.height := Nat.mul_div_cancel' (multiproofDims_eq_some hdims).2
    _ = 2 * g.dims.height := by rw [hheight, extensionFactor, Nat.mul_comm]

/-- Consecutive partitions of the blocks that are half of all have half the cells of each column. -/
theorem exists_readFrom_of_partitions {A : Ark} {g e : EvaluationGrid}
    (he : g.extendColumns A ⟨extensionFactor, by decide⟩ = .ok e) {target d : Dimensions}
    (hdims : multiproofDims e.dims target = some d) (htarget : 2 ≤ target.height) {b : Build} {R : F64}
    {fraction first last : UInt8} (hone : 1 ≤ first) (horder : first ≤ last) (hlast : last ≤ fraction)
    (hhalf : fraction.toNat ≤ 2 * (last.toNat - first.toNat + 1)) {items : List ProofItem}
    (hitems : HasPartitions b R e.dims target d fraction first last items) {col : ℕ} (hcol : col < g.dims.width) :
    ∃ row, ∀ i < g.dims.height, ∃ data, ReadFrom e.dims target items ⟨⟨row + i, col⟩, data⟩ := by
  obtain ⟨-, hwidth, -⟩ := exists_columnDomains_of_extendColumns he
  obtain ⟨hdivWidth, -⟩ := multiproofDims_eq_some hdims
  obtain ⟨half, hhalfRows, hrows⟩ := exists_half_of_multiproofDims he hdims htarget
  have hblockPos : 0 < e.dims.height / d.height :=
    Nat.pos_of_mul_pos_left (hrows ▸ g.dims.height_pos)
  have hblockCol : col / (e.dims.width / d.width) < d.width := div_part_lt hdivWidth (hwidth ▸ hcol)
  have hsize : d.size = 2 * (half * d.width) := by
    rw [← Nat.mul_assoc, ← hhalfRows]
    rfl
  have hpositions : ∀ partition, (d.iterMcellPartitionPositions b R partition : Run Unit _) = (do
      let cells ← partitionCells b R d.size partition
      return cellPositions d.width cells) := by
    intro partition
    rw [Dimensions.iterMcellPartitionPositions, d.size32_eq_ok, Except.ok_bind, toNat_ofNat_of_lt d.size_lt]
  obtain ⟨row, hrow⟩ :=
    exists_rows_of_partitions b R hsize d.size_lt hone horder hlast hhalf hpositions hblockCol
  refine ⟨row * (e.dims.height / d.height), fun i hi => ?_⟩
  obtain ⟨hin, number, hfirst, hnumber, listed, hlisted, hmem⟩ := hrow (i / (e.dims.height / d.height))
    ((Nat.div_lt_iff_lt_mul hblockPos).mpr (hrows ▸ hi))
  rw [← hhalfRows] at hin
  obtain ⟨item, hitem, block, hof, hblockItem⟩ := hitems number hfirst hnumber listed hlisted _ hmem hin hblockCol
  -- the cell is in this block
  have hrowOf : (row * (e.dims.height / d.height) + i) / (e.dims.height / d.height) =
      row + i / (e.dims.height / d.height) := by
    rw [Nat.mul_comm, Nat.mul_add_div hblockPos]
  obtain ⟨block', hblock', hcontains⟩ := (exists_contains_iff hdims).mpr ⟨⟨hblockCol, hin⟩, rfl, hrowOf⟩
  obtain rfl : block' = block := Option.some.inj (hblock'.symm.trans hof)
  exact hblockItem.exists_readFrom hcontains hitem

/-- **Consecutive partitions of the blocks that are half of all give what was published**, whoever sent the batch,
unless one of its items is forged. -/
theorem reconstructExtrinsics_blockPartitions {A : Ark} (hA : A.HasHalves) (Rt : Runtime) (K : Codec AppData)
    (rng : Rng) (S : MultiScheme C P) {extrinsics : List AppExtrinsic} {minWidth maxWidth maxHeight : ℕ}
    {rngSeed : Seed} {g e : EvaluationGrid}
    (hg : EvaluationGrid.fromExtrinsics A K rng extrinsics minWidth maxWidth maxHeight rngSeed = .ok g)
    (he : g.extendColumns A ⟨extensionFactor, by decide⟩ = .ok e) (hlen : g.lookup.len.toNat * chunkSize < 2 ^ 32)
    (hcols : isPowerOfTwo e.dims.width = true) {p : PolynomialGrid} (hp : e.makePolynomialGrid A = .ok p)
    {commitments : List C} (hcommitments : p.commitments S.toCommitter = .ok commitments)
    {commitmentsBytes : List (List UInt8)}
    (hbytes : List.Forall₂ (fun c bytes => S.toBytes c = some bytes) commitments commitmentsBytes)
    {target d : Dimensions} (hdims : multiproofDims e.dims target = some d) (htarget : 2 ≤ target.height)
    (hopens : p.OpensBlocks S e target) {b : Build} {R : F64}
    {fraction first last : UInt8} (hone : 1 ≤ first) (horder : first ≤ last) (hlast : last ≤ fraction)
    (hhalf : fraction.toNat ≤ 2 * (last.toNat - first.toNat + 1)) {items : List ProofItem}
    (hitems : HasPartitions b R e.dims target d fraction first last items)
    (haccept : verifyMultiProof b A S.toParsers (S.verify availMp) items commitmentsBytes.flatten e.dims.width = .ok true)
    {cells : List DataCell} (hcells : ∀ c ∈ cells, ReadFrom e.dims target items c)
    (hnodup : (cells.map DataCell.position).Nodup)
    (hall : ∀ position data, ReadFrom e.dims target items ⟨position, data⟩ → position ∈ cells.map DataCell.position) :
    (∃ item ∈ items, ForgedBlock A S p e target commitments item) ∨
    reconstructExtrinsics A Rt K g.lookup g.dims cells = .ok (groupsOf extrinsics) := by
  obtain ⟨-, hcarries⟩ := EvaluationGrid.carries_of_fromExtrinsics hg
  refine (forgedBlock_or_hasCell hcols hp hcommitments hbytes hopens haccept).imp_right fun hread => ?_
  have hvalue : ∀ c ∈ cells, e.HasCell A c := fun c hc => hread c (hcells c hc)
  have henough : ∀ col < g.dims.width, g.dims.height ≤ (inColumn cells col).length := by
    intro col hcol
    obtain ⟨row, hrow⟩ := exists_readFrom_of_partitions he hdims htarget hone horder hlast hhalf hitems hcol
    refine le_length_inColumn row fun i hi => ?_
    obtain ⟨data, hdata⟩ := hrow i hi
    exact hall _ data hdata
  have hpublished := (reconstructExtrinsics_published hA Rt hcarries he hlen hvalue fun col hcol =>
    List.length_pos_iff.mp (g.dims.height_pos.trans_le (henough col hcol))).1
  rw [map_fst_chunkedGroups] at hpublished
  exact hpublished (enoughOrNone_of_columns he hvalue hnodup henough)

/-- The positions of the lower two of the four blocks. -/
def lowerPositions : List Position := [⟨2, 0⟩, ⟨2, 1⟩, ⟨2, 2⟩, ⟨2, 3⟩, ⟨3, 0⟩, ⟨3, 1⟩, ⟨3, 2⟩, ⟨3, 3⟩]

/-- From the items of the lower blocks, only their cells are read. -/
theorem mem_lowerPositions_of_readFrom {items : List ProofItem}
    (hsent : List.Forall₂ (Sent bls12381 (MultiScheme.atPoint 5) twoAppsPolynomials twoAppsExtended fourBlocks)
      [⟨1, 0⟩, ⟨1, 1⟩] items)
    {position : Position} {data : Chunk} (h : ReadFrom twoAppsExtended.dims fourBlocks items ⟨position, data⟩) :
    position ∈ lowerPositions := by
  obtain ⟨item, hitem, block, ⟨⟨asked, hasked⟩, hcorners, -⟩, ⟨⟨hx, hx'⟩, hy, hy'⟩, -⟩ := h
  obtain ⟨cell, hcell, m, hm, hsentCorners, -⟩ := Except.exists_of_mem_forall₂ hsent hitem
  obtain rfl : m.block = block :=
    multiproofBlock_inj (block_of_multiproof hm) hasked (hsentCorners.symm.trans hcorners)
  obtain ⟨-, hblock⟩ := (multiproofBlock_eq_some_iff multiproofDims_fourBlocks).mp (block_of_multiproof hm)
  have hcases : m.block = ⟨0, 2, 2, 4⟩ ∨ m.block = ⟨2, 2, 4, 4⟩ := by
    rcases List.mem_cons.mp hcell with rfl | hcell
    · exact .inl hblock
    · obtain rfl := List.mem_singleton.mp hcell
      exact .inr hblock
  obtain ⟨row, col⟩ := position
  rcases hcases with hblock | hblock
  all_goals
    rw [hblock] at hx hx' hy hy'
    dsimp only at hx hx' hy hy'
    simp only [lowerPositions, List.mem_cons, Position.mk.injEq, List.not_mem_nil, or_false]
    omega

/-- The second of two partitions of the blocks. -/
theorem reconstructExtrinsics_blockPartitions_two : ∃ (items : List ProofItem) (cells : List DataCell),
    List.Forall₂ (Sent bls12381 (MultiScheme.atPoint 5) twoAppsPolynomials twoAppsExtended fourBlocks)
      [⟨1, 0⟩, ⟨1, 1⟩] items ∧
    cells.map DataCell.position = lowerPositions ∧
    reconstructExtrinsics bls12381 Runtime.plain scaleAppData twoAppsGrid.lookup twoAppsGrid.dims cells =
      .ok (groupsOf twoApps) := by
  obtain ⟨items, hsent⟩ := @exists_sent_twoApps [⟨1, 0⟩, ⟨1, 1⟩] (by decide)
  obtain ⟨cells, hpositions, hcells⟩ := @exists_cells_readFrom _ _ hsent lowerPositions (by decide)
  obtain ⟨commitmentsBytes, hbytes⟩ := exists_commitmentsBytes_twoApps
  have haccept := verifyMultiProof_eq_true_of_sent (by decide) makePolynomialGrid_twoApps .checked
    (twoAppsPolynomials.commitments_atPoint 5) hbytes hsent
  have hitems : HasPartitions .checked (Rounding.exact (by norm_num)) twoAppsExtended.dims fourBlocks fourBlocks 2 2 2
      items := by
    intro number hfirst hlast listed hlisted p hp _ _
    obtain rfl : number = 2 := UInt8.le_antisymm hlast hfirst
    have hlower : (fourBlocks.iterMcellPartitionPositions .checked (Rounding.exact (by norm_num)) ⟨2, 2⟩ : Run Unit _) =
        .ok [⟨1, 0⟩, ⟨1, 1⟩] := by decide +kernel
    rw [hlower, Except.ok.injEq] at hlisted
    have hasked : ∀ p ∈ [(⟨1, 0⟩ : Position), ⟨1, 1⟩], ∃ cell ∈ [(⟨1, 0⟩ : Cell), ⟨1, 1⟩],
        cell.col.toNat = p.col ∧ cell.row.toNat = p.row := by decide
    obtain ⟨cell, hcell, hcol, hrow⟩ := hasked p (hlisted ▸ hp)
    obtain ⟨item, hitem, h⟩ : ∃ item ∈ items, Sent bls12381 (MultiScheme.atPoint 5) twoAppsPolynomials twoAppsExtended
      fourBlocks cell item := Except.exists_of_mem_forall₂ hsent.flip hcell
    obtain ⟨block, hblock, hof⟩ := h.blockItem (by decide) makePolynomialGrid_twoApps
    exact ⟨item, hitem, block, hcol ▸ hrow ▸ hblock, hof⟩
  have hnodup : (cells.map DataCell.position).Nodup := by
    rw [hpositions]
    decide
  have hrun := reconstructExtrinsics_blockPartitions bls12381_hasHalves Runtime.plain scaleAppData _
    (MultiScheme.atPoint 5) (fromExtrinsics_twoApps (List.Vector.replicate 32 0)) extendColumns_twoApps (by decide)
    (by decide) makePolynomialGrid_twoApps (twoAppsPolynomials.commitments_atPoint 5) hbytes multiproofDims_fourBlocks
    (by decide) opensBlocks_twoApps (by decide : (1 : UInt8) ≤ 2) (by decide : (2 : UInt8) ≤ 2)
    (by decide : (2 : UInt8) ≤ 2) (by decide) hitems haccept hcells hnodup
    fun position data h => hpositions ▸ mem_lowerPositions_of_readFrom hsent h
  exact ⟨items, cells, hsent, hpositions, hrun.resolve_left (not_exists_forgedBlock hsent _)⟩

end AvailCore
