import AvailCore.Recovery.AppData
import AvailCore.Recovery.Sizes

/-!
# The numbers of the cells

The cells of a block are numbered row by row. The functions of `Dimensions` in
`kate/recovery/src/matrix.rs` that list them do so in nested loops, over rows and columns
or over columns and rows, or from the number of a cell, by division; the buffers of
`kate/recovery/src/com.rs` are filled in such a loop, and are read by the number of a cell.

## What is proved

All of them number the cells alike, whatever the number of rows and of columns
(`numbersCells`), and what is at the place of a cell's number in a buffer is that cell
(`data_cells_numbered`).
-/

namespace AvailCore

open Chunks

namespace Dimensions

variable (d : Dimensions)

/-- Columns for rows. -/
def transpose : Dimensions := ⟨d.cols, d.rows⟩

theorem size_transpose : d.transpose.size = d.size := Nat.mul_comm ..

/-- The numbers of the cells column by column. -/
theorem iterCells_eq : d.iterCells = (List.range d.size).map fun k => k % d.height * d.width + k / d.height := by
  have htranspose : d.iterCells = d.transpose.iterData.map fun p => p.2 * d.width + p.1 := by
    simp only [iterCells, iterData, List.map_flatMap, List.map_map, Function.comp_def]
    rfl
  rw [htranspose, d.transpose.iterData_eq, size_transpose, List.map_map]
  rfl

/-- From the number of a cell, where it is column by column. -/
theorem columnwise_of_mem {k : ℕ} (hk : k < d.size) :
    (k % d.height * d.width + k / d.height) % d.width * d.height +
      (k % d.height * d.width + k / d.height) / d.width = k := by
  have hcol : k / d.height < d.width := Nat.div_lt_of_lt_mul hk
  obtain ⟨hdiv, hmod⟩ := mul_add_div_mod (r := k % d.height) hcol
  rw [hmod, hdiv, Nat.div_add_mod']

/-- **Column by column, each cell is there once.** -/
theorem perm_iterCells : d.iterCells.Perm (List.range d.size) := by
  have hback : (d.iterCells.map fun c => c % d.width * d.height + c / d.width) = List.range d.size := by
    rw [iterCells_eq, List.map_map]
    conv_rhs => rw [← List.map_id (List.range d.size)]
    exact List.map_congr_left fun k hk => d.columnwise_of_mem (List.mem_range.mp hk)
  have hnodup : d.iterCells.Nodup := List.Nodup.of_map _ (hback ▸ List.nodup_range)
  have hsub : d.iterCells ⊆ List.range d.size := by
    intro c hc
    rw [iterCells_eq, List.mem_map] at hc
    obtain ⟨k, hk, rfl⟩ := hc
    have hk := List.mem_range.mp hk
    exact List.mem_range.mpr (d.cell_lt (Nat.mod_lt k d.height_pos) (Nat.div_lt_of_lt_mul hk))
  have hlen : d.iterCells.length = d.size := by rw [iterCells_eq, List.length_map, List.length_range]
  exact (hnodup.subperm hsub).perm_of_length_le (by rw [hlen, List.length_range])

/-- A cell of the data is in the extended matrix, in a row that the extension did not add. -/
theorem extendedContains_extendedDataPosition {c : ℕ} (hc : c < d.size) :
    d.extendedContains (d.extendedDataPosition c) = true ∧ (d.extendedDataPosition c).isExtended = false := by
  constructor
  · refine d.extendedContains_iff.mpr ⟨?_, Nat.mod_lt c d.width_pos⟩
    exact Nat.mul_lt_mul_of_pos_right (d.div_width_lt hc) Nat.two_pos
  · rw [Position.isExtended, extendedDataPosition, Nat.mul_mod_left]
    rfl

/-- The loops and the divisions number the cells alike. -/
structure NumbersCells : Prop where
  iterExtendedDataPositions : (d.iterExtendedDataPositions.map fun p => (⟨p.1, p.2⟩ : Position)) =
    (List.range d.size).map d.extendedDataPosition
  iterData : d.iterData = (List.range d.size).map fun c => (c / d.width, c % d.width)
  iterCells : d.iterCells = (List.range d.size).map fun k => k % d.height * d.width + k / d.height
  /-- Each cell once. -/
  iterCells_perm : d.iterCells.Perm (List.range d.size)
  inData : ∀ p ∈ d.iterExtendedDataPositions,
    d.extendedContains ⟨p.1, p.2⟩ = true ∧ Position.isExtended ⟨p.1, p.2⟩ = false

theorem numbersCells : d.NumbersCells where
  iterExtendedDataPositions := by rw [iterExtendedDataPositions_eq, List.map_map]; rfl
  iterData := d.iterData_eq
  iterCells := d.iterCells_eq
  iterCells_perm := d.perm_iterCells
  inData := by
    intro p hp
    rw [iterExtendedDataPositions_eq, List.mem_map] at hp
    obtain ⟨c, hc, rfl⟩ := hp
    exact d.extendedContains_extendedDataPosition (List.mem_range.mp hc)

example : (Dimensions.mk ⟨2, NonZeroU16.two_bounds⟩ ⟨3, by decide⟩).iterCells = [0, 3, 1, 4, 2, 5] := rfl

end Dimensions

/-! ### The buffers -/

/-- The buffer that `decode_app_extrinsics` fills. -/
def Columns.appData (columns : Columns) (dimensions : Dimensions) : List UInt8 :=
  dimensions.iterExtendedDataPositions.flatMap fun (row, col) =>
    match columns.cellAt ⟨row, col⟩ with
    | none => List.replicate chunkSize 0
    | some cell => cell.data.val

/-- It decodes from this buffer. -/
theorem decodeAppExtrinsics_eq_appData (K : Codec AppData) (index : DataLookup) (dimensions : Dimensions)
    (cells : List DataCell) (appId : AppId) : decodeAppExtrinsics K index dimensions cells appId =
      if ((appSpecificCells index dimensions appId).getD []).isEmpty then return []
      else do
        let cellsMap ← mapCells dimensions cells
        let _ ← ((appSpecificCells index dimensions appId).getD []).mapM fun position =>
          Run.okOr (.missingCell position) (cellsMap.cellAt position)
        let ranges :=
          ((index.projectedRangeOf appId (UInt32.ofNat chunkSize)).map fun range => [(appId, range)]).getD []
        let unflattened ← (unflattenPaddedData K ranges (cellsMap.appData dimensions)).mapErr .dataDecodingError
        return unflattened.flatMap Prod.snd := rfl

/-- It has the bytes of the cells where the extended matrix has the data. -/
theorem appData_eq_dataIn {dimensions : Dimensions} {cells : List DataCell} {columns : Columns}
    (h : mapCells dimensions cells = .ok columns) : columns.appData dimensions = dataIn dimensions cells := by
  obtain ⟨hhold, -, hnodup⟩ := hold_of_mapCells h
  rw [Columns.appData, hhold.cellAt_eq hnodup, dimensions.iterExtendedDataPositions_eq, List.flatMap_map]
  rfl

/-- The `k`-th cell of a buffer. -/
def bufferCell (data : List UInt8) (k : ℕ) : List UInt8 := (data.drop (k * chunkSize)).take chunkSize

theorem ChunksOf.bufferCell_eq {dimensions : Dimensions} {data chunk : List UInt8} {chunks : List (List UInt8)}
    (h : ChunksOf dimensions data chunks) {k : ℕ} (hk : chunks[k]? = some chunk) : bufferCell data k = chunk := by
  obtain ⟨hlt, hget⟩ := List.getElem?_eq_some_iff.mp hk
  rw [bufferCell, h.flatten, chunk_flatten_uniform h.length_chunk hlt, hget]

/-- **The cells are numbered alike everywhere.** The loops list them by their numbers; in the buffer of
`reconstruct_available` and in that of `decode_app_extrinsics`, cell `k` of the data is the `k`-th. -/
theorem data_cells_numbered (d : Dimensions) : d.NumbersCells ∧
    (∀ (A : Ark) (R : Runtime) (cells : List DataCell) (data : List UInt8),
      reconstructAvailable A R d cells = .ok data → ∃ columns scalars, mapCells d cells = .ok columns ∧
        (List.range d.width).mapM (columnScalars A R d columns) = .ok scalars ∧
        data.length = d.size * chunkSize ∧
        ∀ k < d.size, cellBytes A scalars (k / d.width, k % d.width) = .ok (bufferCell data k)) ∧
    (∀ (cells : List DataCell) (columns : Columns), mapCells d cells = .ok columns →
      (columns.appData d).length = d.size * chunkSize ∧
        ∀ k < d.size, bufferCell (columns.appData d) k = chunkIn cells (d.extendedDataPosition k)) := by
  refine ⟨d.numbersCells, ?_, ?_⟩
  · intro A R cells data hdata
    simp only [reconstructAvailable, Except.bind_eq_ok, Except.pure_eq_ok, Except.ok.injEq] at hdata
    obtain ⟨columns, hcolumns, scalars, hscalars, chunks, hchunks, rfl⟩ := hdata
    have hchunksOf := chunksOf_cellBytes hchunks
    refine ⟨columns, scalars, hcolumns, hscalars, hchunksOf.length_data, fun k hk => ?_⟩
    have hlt : k < chunks.length := hchunksOf.length.symm ▸ hk
    obtain ⟨p, hp, hrun⟩ := Except.exists_of_getElem?_mapM hchunks (List.getElem?_eq_getElem hlt)
    rw [d.iterData_eq, List.getElem?_map, List.getElem?_range hk, Option.map_some, Option.some.injEq] at hp
    rw [hp, hchunksOf.bufferCell_eq (List.getElem?_eq_getElem hlt)]
    exact hrun
  · intro cells columns hcolumns
    have hchunksOf := chunksOf_dataIn d cells
    rw [appData_eq_dataIn hcolumns]
    refine ⟨hchunksOf.length_data, fun k hk => hchunksOf.bufferCell_eq ?_⟩
    rw [List.getElem?_map, List.getElem?_range hk, Option.map_some]

end AvailCore
