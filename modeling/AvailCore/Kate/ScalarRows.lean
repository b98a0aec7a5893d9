import AvailCore.Kate.AppRows

/-!
# Rows by a stride

`scalars_to_rows` of `kate/src/com.rs` gives the bytes of the rows it is asked for, as
`scalars_to_app_rows` gives those of an application. It does not use the view of a row
of the matrix: as the matrix is stored column by column, the entries of a row are as far
apart as there are rows.

## What is proved

The entries that are read so are those of the row (`strideRow_eq`), so that
both give the same (`scalarsToRows_rows`).
-/

namespace AvailCore

/-- `(0..end).step_by(step)`, which panics when the step is 0. -/
def rangeStepBy {ε : Type} (end_ step : ℕ) : Run ε (List ℕ) := do
  Run.assert (decide (step ≠ 0))
  return List.range' 0 ((end_ + step - 1) / step) step

/-- `row`: the entries of a row, in the storage. -/
def strideRow {ε : Type} {nrows ncols : ℕ} (data : DMatrix ArkScalar nrows ncols) (i cols extendedRows : ℕ) :
    Run ε (List ArkScalar) := do
  let idxs ← rangeStepBy (saturatingMul cols extendedRows) extendedRows
  idxs.mapM fun idx => data.index (saturatingAdd i idx)

/-- `scalars_to_rows` -/
def scalarsToRows {ε : Type} {nrows ncols : ℕ} (A : Ark) (rows : List ℕ) (dimensions : Dimensions)
    (data : DMatrix ArkScalar nrows ncols) : Run ε (List (Option (List UInt8))) := do
  let extendedRows := dimensions.extendedRows
  let cols := dimensions.width
  (List.range dimensions.extendedRows).mapM fun i =>
    if rows.contains i then do
      let scalars ← strideRow data i cols extendedRows
      return rowBytes A scalars
    else return none

/-- The steps up to a multiple of the step. -/
theorem rangeStepBy_mul {ε : Type} {n step : ℕ} (h : 0 < step) :
    (rangeStepBy (n * step) step : Run ε _) = .ok ((List.range n).map fun j => j * step) := by
  have hrange : List.range' 0 n step = (List.range n).map fun j => j * step :=
    List.ext_getElem (by simp) fun j hj hj' => by simp [Nat.mul_comm]
  rw [rangeStepBy, decide_eq_true h.ne', Chunks.mul_add_sub_one_div h, hrange]
  rfl

/-- Nothing saturates in the extended matrix. -/
theorem Dimensions.extendedRows_mul_lt (d : Dimensions) : d.extendedRows * d.width + d.extendedRows < usizeLimit := by
  have hrows : d.rows.val < 2 ^ 16 := d.rows.property.2
  have hcols : d.width < 2 ^ 16 := d.cols.property.2
  have hext : d.extendedRows ≤ 2 ^ 17 := by
    show d.rows.val * 2 ≤ 2 ^ 17
    omega
  have hmul : d.extendedRows * d.width ≤ 2 ^ 17 * 2 ^ 16 := Nat.mul_le_mul hext hcols.le
  have hlimit : 2 ^ 17 * 2 ^ 16 + 2 ^ 17 < usizeLimit := by decide
  omega

section StrideRow

variable {ε : Type} (d : Dimensions) (m : DMatrix ArkScalar d.extendedRows d.width)

/-- **The entries at these steps are those of the row.** -/
theorem strideRow_eq {i : ℕ} (hi : i < d.extendedRows) :
    (strideRow m i d.width d.extendedRows : Run ε _) = .ok (m.row i) := by
  have hlimit := d.extendedRows_mul_lt
  have hwidth : saturatingMul d.width d.extendedRows = d.width * d.extendedRows := by
    rw [saturatingMul, Nat.min_eq_left]
    rw [Nat.mul_comm]
    omega
  rw [strideRow, hwidth, rangeStepBy_mul (Nat.zero_lt_of_lt hi), Except.ok_bind, Except.mapM_ok_iff,
    m.row_eq_map_range hi 0, List.forall₂_map_left_iff, List.forall₂_map_right_iff, List.forall₂_same]
  intro j hj
  have hj := List.mem_range.mp hj
  have hle : j * d.extendedRows ≤ d.extendedRows * d.width := by
    rw [Nat.mul_comm]
    exact Nat.mul_le_mul_left _ hj.le
  obtain ⟨value, hvalue⟩ := m.exists_get hi hj
  rw [saturatingAdd, Nat.min_eq_left (by omega), DMatrix.index, Run.index, m.index_eq hi, hvalue]
  rfl

/-- A row by the stride is the row by its view. -/
theorem scalarsToRows_eq_mapM (A : Ark) (rows : List ℕ) : (scalarsToRows A rows d m : Run ε _) =
    (List.range d.extendedRows).mapM fun i =>
      if rows.contains i then (.ok (rowBytes A (m.row i)) : Run ε _) else .ok none := by
  refine Except.mapM_congr fun i hi => ?_
  rw [strideRow_eq d m (List.mem_range.mp hi)]
  rfl

end StrideRow

/-- The bytes of the scalars of a row are those of its entries, column by column. -/
theorem exists_chunks_of_row {A : Ark} {nrows ncols : ℕ} (m : DMatrix ArkScalar nrows ncols) {i : ℕ} (hi : i < nrows) :
    ∃ chunks : List Chunk, (∀ col, chunks[col]? = (m.get i col).bind A.toBytes) ∧
      rowBytes A (m.row i) = some (chunks.flatMap fun chunk => chunk.val) := by
  obtain ⟨chunk, hchunk, hbytes⟩ := exists_chunk_rowBytes A
  refine ⟨(m.row i).map chunk, fun col => ?_, ?_⟩
  · rw [List.getElem?_map, m.getElem?_row hi]
    cases m.get i col with
    | none => rfl
    | some s => exact (hchunk s).symm
  · rw [hbytes, List.flatMap_map, List.flatMap_def]

/-- **The rows that are asked for**, whole and in their places, and no others; for an application, they
are the rows of `scalars_to_app_rows`. -/
theorem scalarsToRows_rows {ε : Type} (b : Build) (A : Ark) (d : Dimensions)
    (m : DMatrix ArkScalar d.extendedRows d.width) :
    (∀ rows : List ℕ, ∃ out, (scalarsToRows A rows d m : Run ε _) = .ok out ∧ out.length = d.extendedRows ∧
      ∀ i < d.extendedRows,
        (i ∈ rows → ∃ chunks : List Chunk, (∀ col, chunks[col]? = (m.get i col).bind A.toBytes) ∧
          out[i]? = some (some (chunks.flatMap fun chunk => chunk.val))) ∧
        (i ∉ rows → out[i]? = some none)) ∧
    ∀ (lookup : DataLookup) (id : AppId), (scalarsToAppRows b A id lookup d m : Run ε _) = (do
      let rows ← appSpecificRows b lookup d id
      scalarsToRows A rows d m) := by
  constructor
  · intro rows
    refine ⟨(List.range d.extendedRows).map fun i => if rows.contains i then rowBytes A (m.row i) else none, ?_, ?_, ?_⟩
    · rw [scalarsToRows_eq_mapM]
      refine Except.mapM_eq_map fun i _ => ?_
      split_ifs <;> rfl
    · rw [List.length_map, List.length_range]
    · intro i hi
      rw [List.getElem?_map, List.getElem?_range hi, Option.map_some]
      constructor
      · intro hmem
        obtain ⟨chunks, hchunks, hbytes⟩ := exists_chunks_of_row m hi
        exact ⟨chunks, hchunks, by rw [if_pos (List.contains_iff_mem.mpr hmem), hbytes]⟩
      · intro hmem
        rw [if_neg (mt List.contains_iff_mem.mp hmem)]
  · intro lookup id
    rw [scalarsToAppRows]
    congr 1
    funext rows
    rw [scalarsToRows_eq_mapM]
    refine Except.mapM_congr fun i hi => ?_
    have hany : (rows.any fun row => row == i) = rows.contains i := by
      rw [List.contains_eq_any_beq]
      simp only [BEq.comm]
    rw [hany, DMatrix.getRow, decide_eq_true (List.mem_range.mp hi)]
    rfl

end AvailCore
