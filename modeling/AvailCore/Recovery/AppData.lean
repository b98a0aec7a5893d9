import AvailCore.Recovery.Data
import AvailCore.Recovery.Reconstruct
import Std.Data.ExtHashMap.Lemmas

/-!
# The data of one application

`reconstruct_app_extrinsics`, `reconstruct_columns` and `decode_app_extrinsics` of
`kate/recovery/src/com.rs`. The first takes the range of one application from the
reconstructed matrix. The second reconstructs columns and leaves them as they are. The
third reads the application's cells where the extended matrix has them, in its even
rows, and decodes no erasure code.

## The model

The hash map of columns is traversed in an order that `Traversal` leaves open, and the
map that is returned is one without order. The data of a cell is an array, never empty;
the filter on it is kept.

## What is proved

`reconstructAvailable_eq_ok_iff` says when the matrix is reconstructed and what its
bytes are, column by column from the cells of the column. From it, no function depends
on the order of the cells or of a map (`order_irrelevant`), the data of an application
only on the columns it is in (`reconstructAppExtrinsics_columns`), and a block is the
list of its applications (`reconstructExtrinsics_by_app`).
-/

namespace AvailCore

open Chunks

/-- An order in which a hash map gives its entries. -/
structure Traversal (α : Type) where
  order : List α → List α
  order_perm : ∀ xs, (order xs).Perm xs

/-- The order a list has. -/
def Traversal.plain (α : Type) : Traversal α := ⟨id, fun _ => .refl _⟩

/-- The order from the last entry to the first. -/
def Traversal.backwards (α : Type) : Traversal α := ⟨List.reverse, List.reverse_perm⟩

/-- `app_specific_cells` -/
def appSpecificCells (index : DataLookup) (dimensions : Dimensions) (id : AppId) : Option (List Position) :=
  (index.rangeOf id).bind dimensions.extendedDataPositions

/-- `reconstruct_app_extrinsics` -/
def reconstructAppExtrinsics (A : Ark) (R : Runtime) (K : Codec AppData) (index : DataLookup)
    (dimensions : Dimensions) (cells : List DataCell) (appId : AppId) : Run ReconstructionError AppData := do
  let data ← reconstructAvailable A R dimensions cells
  let range ← Run.okOr (.missingId appId) (index.projectedRangeOf appId (UInt32.ofNat chunkSize))
  let unflattened ← (unflattenPaddedData K [(appId, range)] data).mapErr .dataDecodingError
  return unflattened.flatMap Prod.snd

/-- `DataCell::from(cell)` -/
def SingleCell.toDataCell (cell : SingleCell) : DataCell := ⟨cell.position, cell.data⟩

/-- The bytes of a column, from its cells: the closure of `reconstruct_columns`. -/
def reconstructedColumn (A : Ark) (R : Runtime) (dimensions : Dimensions) (entry : ℕ × Std.HashMap ℕ DataCell) :
    Run ReconstructionError (ℕ × List Chunk) := do
  let (col, cells) := entry
  Run.ensure (dimensions.height ≤ cells.size) (.invalidColumn col)
  let cellValues := R.values col (cells.toList.map Prod.snd)
  let scalars ← reconstructColumn A R dimensions.extendedRows cellValues
  let column ← scalars.mapM fun scalar => Run.okOr (.invalidColumn col) (A.toBytes scalar)
  return (col, column)

/-- `reconstruct_columns` -/
def reconstructColumns (A : Ark) (R : Runtime) (T : Traversal (ℕ × Std.HashMap ℕ DataCell))
    (dimensions : Dimensions) (cells : List SingleCell) :
    Run ReconstructionError (Std.ExtHashMap ℕ (List Chunk)) := do
  let columns ← mapCells dimensions (cells.map SingleCell.toDataCell)
  let reconstructed ← (T.order columns.toList).mapM (reconstructedColumn A R dimensions)
  return Std.ExtHashMap.ofList reconstructed

/-- The cell at a position, when there is one with data. -/
def Columns.cellAt (columns : Columns) (position : Position) : Option DataCell :=
  (columns[position.col]?.bind fun column => column[position.row]?).filter fun cell => !cell.data.val.isEmpty

/-- `decode_app_extrinsics` -/
def decodeAppExtrinsics (K : Codec AppData) (index : DataLookup) (dimensions : Dimensions)
    (cells : List DataCell) (appId : AppId) : Run ReconstructionError AppData :=
  let positions := (appSpecificCells index dimensions appId).getD []
  if positions.isEmpty then return []
  else do
    let cellsMap ← mapCells dimensions cells
    let _ ← positions.mapM fun position => Run.okOr (.missingCell position) (cellsMap.cellAt position)
    let appData := dimensions.iterExtendedDataPositions.flatMap fun (row, col) =>
      match cellsMap.cellAt ⟨row, col⟩ with
      | none => List.replicate chunkSize 0
      | some cell => cell.data.val
    let ranges := ((index.projectedRangeOf appId (UInt32.ofNat chunkSize)).map fun range => [(appId, range)]).getD []
    let unflattened ← (unflattenPaddedData K ranges appData).mapErr .dataDecodingError
    return unflattened.flatMap Prod.snd

/-! ### Cells that can be mapped -/

/-- The cells are of the matrix, no two in one position. -/
structure Mappable (dimensions : Dimensions) (cells : List DataCell) : Prop where
  contained : ∀ c ∈ cells, dimensions.extendedContains c.position = true
  nodup : (cells.map DataCell.position).Nodup

/-- `map_cells` succeeds on such cells only, and holds them. -/
theorem exists_mapCells_iff {dimensions : Dimensions} {cells : List DataCell} :
    (∃ columns, mapCells dimensions cells = .ok columns) ↔ Mappable dimensions cells := by
  constructor
  · intro h
    obtain ⟨columns, hrun⟩ := h
    obtain ⟨-, hin, hnodup⟩ := hold_of_mapCells hrun
    exact ⟨hin, hnodup⟩
  · intro h
    obtain ⟨columns, hrun, -⟩ := mapCells_eq_ok h.contained h.nodup
    exact ⟨columns, hrun⟩

/-- On others it fails. -/
theorem mapCells_returns (dimensions : Dimensions) (cells : List DataCell) :
    Run.Returns (mapCells dimensions cells) := by
  apply Run.returns_foldlM
  intro columns cell
  simp [insertCell, Run.returns_bind]

namespace Mappable

variable {dimensions : Dimensions} {cells : List DataCell} (h : Mappable dimensions cells)
include h

theorem perm {cells' : List DataCell} (hperm : cells.Perm cells') : Mappable dimensions cells' :=
  ⟨fun c hc => h.contained c (hperm.mem_iff.mpr hc), (hperm.map _).nodup_iff.mp h.nodup⟩

/-- A column has no more cells than rows. -/
theorem length_inColumn_le (col : ℕ) : (inColumn cells col).length ≤ dimensions.extendedRows := by
  have hsub : ((inColumn cells col).map fun c => c.position.row) ⊆ List.range dimensions.extendedRows := by
    intro row hrow
    obtain ⟨c, hc, rfl⟩ := List.mem_map.mp hrow
    have hin := h.contained c (List.mem_of_mem_filter hc)
    exact List.mem_range.mpr (dimensions.extendedContains_iff.mp hin).1
  have hlen := ((nodup_rows_inColumn h.nodup col).subperm hsub).length_le
  rwa [List.length_map, List.length_range] at hlen

/-- Columns with the same cells hold them in orders that differ only. -/
theorem inColumn_perm {cells' : List DataCell} (h' : Mappable dimensions cells') {col : ℕ}
    (hsame : ∀ c, c ∈ inColumn cells col ↔ c ∈ inColumn cells' col) :
    (inColumn cells col).Perm (inColumn cells' col) := by
  apply (List.perm_ext_iff_of_nodup _ _).mpr hsame
  · exact (nodup_rows_inColumn h.nodup col).of_map
  · exact (nodup_rows_inColumn h'.nodup col).of_map

end Mappable

theorem inColumn_ne_nil {cells : List DataCell} {c : DataCell} (hc : c ∈ cells) : inColumn cells c.position.col ≠ [] :=
  List.ne_nil_of_mem (List.mem_filter.mpr ⟨hc, decide_eq_true rfl⟩)

/-! ### A column, from its cells -/

/-- The scalars of a column, from its cells in the order of the list. -/
def columnOf (A : Ark) (R : Runtime) (dimensions : Dimensions) (cells : List DataCell) (col : ℕ) :
    Run ReconstructionError (List ArkScalar) := do
  Run.ensure (dimensions.height ≤ (inColumn cells col).length) (.invalidColumn col)
  reconstructColumn A R dimensions.extendedRows (inColumn cells col)

/-- The same, a column without cells having no scalar. -/
def entriesOf (A : Ark) (R : Runtime) (dimensions : Dimensions) (cells : List DataCell) (col : ℕ) :
    Run ReconstructionError (List (Option ArkScalar)) :=
  if inColumn cells col = [] then return List.replicate dimensions.height none
  else do
    let scalars ← columnOf A R dimensions cells col
    return scalars.map some

/-- The order of a column's cells does not matter. -/
theorem columnOf_perm (A : Ark) (R R' : Runtime) {dimensions : Dimensions} {cells cells' : List DataCell}
    (hcells : (cells.map DataCell.position).Nodup) {col : ℕ} (h : (inColumn cells col).Perm (inColumn cells' col)) :
    columnOf A R dimensions cells col = columnOf A R' dimensions cells' col := by
  rw [columnOf, columnOf, h.length_eq, reconstructColumn_perm A R R' _ h (nodup_rows_inColumn hcells col)]

theorem entriesOf_perm (A : Ark) (R R' : Runtime) {dimensions : Dimensions} {cells cells' : List DataCell}
    (hcells : (cells.map DataCell.position).Nodup) {col : ℕ} (h : (inColumn cells col).Perm (inColumn cells' col)) :
    entriesOf A R dimensions cells col = entriesOf A R' dimensions cells' col := by
  have hnil : inColumn cells col = [] ↔ inColumn cells' col = [] := by
    rw [← List.length_eq_zero_iff, ← List.length_eq_zero_iff, h.length_eq]
  simp only [entriesOf, hnil, columnOf_perm A R R' hcells h]

namespace Columns.Hold

variable {columns : Columns} {cells : List DataCell} (h : columns.Hold cells)
include h

/-- What is reconstructed from a column's map is what its cells give. -/
theorem reconstructColumn_eq (A : Ark) (R : Runtime) (dimensions : Dimensions)
    (hnodup : (cells.map DataCell.position).Nodup) {col : ℕ} {column : Std.HashMap ℕ DataCell}
    (hcol : columns[col]? = some column) :
    column.size = (inColumn cells col).length ∧
      reconstructColumn A R dimensions.extendedRows (R.values col (column.toList.map Prod.snd)) =
        reconstructColumn A R dimensions.extendedRows (inColumn cells col) := by
  have hvalues := h.values_perm hcol
  constructor
  · rw [← hvalues.length_eq, List.length_map, Std.HashMap.length_toList]
  · have hperm := (R.values_perm col (column.toList.map Prod.snd)).trans hvalues
    exact (reconstructColumn_perm A R R _ hperm.symm (nodup_rows_inColumn hnodup col)).symm

theorem columnScalars_eq (A : Ark) (R : Runtime) (dimensions : Dimensions)
    (hnodup : (cells.map DataCell.position).Nodup) (col : ℕ) :
    columnScalars A R dimensions columns col = entriesOf A R dimensions cells col := by
  unfold columnScalars entriesOf columnOf
  cases hcol : columns[col]? with
  | none => rw [if_pos ((h.getElem?_eq_none_iff col).mp hcol)]
  | some column =>
    have hne : inColumn cells col ≠ [] := by
      rw [Ne, ← h.getElem?_eq_none_iff, hcol]
      exact Option.some_ne_none column
    obtain ⟨hsize, hrun⟩ := h.reconstructColumn_eq A R dimensions hnodup hcol
    simp only [if_neg hne, hsize, hrun, bind_assoc]

end Columns.Hold

/-! ### The matrix, column by column -/

/-- **The matrix is reconstructed when its columns are**: each cell is read from the scalars of its column. -/
theorem reconstructAvailable_eq_ok_iff {A : Ark} {R : Runtime} {dimensions : Dimensions} {cells : List DataCell}
    {data : List UInt8} : reconstructAvailable A R dimensions cells = .ok data ↔
      Mappable dimensions cells ∧ ∃ scalars chunks,
        (List.range dimensions.width).mapM (entriesOf A R dimensions cells) = .ok scalars ∧
        dimensions.iterData.mapM (cellBytes A scalars) = .ok chunks ∧ data = chunks.flatten := by
  have hcolumns : ∀ columns, mapCells dimensions cells = .ok columns →
      (List.range dimensions.width).mapM (columnScalars A R dimensions columns) =
        (List.range dimensions.width).mapM (entriesOf A R dimensions cells) := by
    intro columns hrun
    obtain ⟨hhold, -, hnodup⟩ := hold_of_mapCells hrun
    exact Except.mapM_congr fun col _ => hhold.columnScalars_eq A R dimensions hnodup col
  simp only [reconstructAvailable, Except.bind_eq_ok, Except.pure_eq_ok, Except.ok.injEq]
  constructor
  · intro h
    obtain ⟨columns, hrun, scalars, hscalars, chunks, hchunks, rfl⟩ := h
    rw [hcolumns columns hrun] at hscalars
    exact ⟨exists_mapCells_iff.mp ⟨columns, hrun⟩, scalars, chunks, hscalars, hchunks, rfl⟩
  · intro h
    obtain ⟨hmap, scalars, chunks, hscalars, hchunks, rfl⟩ := h
    obtain ⟨columns, hrun⟩ := exists_mapCells_iff.mpr hmap
    rw [← hcolumns columns hrun] at hscalars
    exact ⟨columns, hrun, scalars, hscalars, chunks, hchunks, rfl⟩

theorem length_cellBytes {A : Ark} {scalars : List (List (Option ArkScalar))} {p : ℕ × ℕ} {chunk : List UInt8}
    (h : cellBytes A scalars p = .ok chunk) : chunk.length = chunkSize := by
  unfold cellBytes at h
  split at h
  · obtain ⟨bytes, -, hbytes⟩ := Except.bind_eq_ok.mp h
    cases hbytes
    exact bytes.property
  · cases h
    exact List.length_replicate

theorem exists_cellBytes (A : Ark) (scalars : List (List (Option ArkScalar))) (p : ℕ × ℕ) :
    ∃ chunk, cellBytes A scalars p = .ok chunk := by
  unfold cellBytes
  split
  · obtain ⟨bytes, hbytes⟩ := Option.isSome_iff_exists.mp (A.toBytes_isSome _)
    exact ⟨bytes.val, by rw [hbytes]; rfl⟩
  · exact ⟨_, rfl⟩

/-- A cell is read from its column. -/
theorem cellBytes_congr (A : Ark) {scalars scalars' : List (List (Option ArkScalar))} {p : ℕ × ℕ}
    (h : scalars[p.2]? = scalars'[p.2]?) : cellBytes A scalars p = cellBytes A scalars' p := by
  rw [cellBytes, cellBytes, h]

/-- The chunks of the matrix, one for each cell. -/
structure ChunksOf (dimensions : Dimensions) (data : List UInt8) (chunks : List (List UInt8)) : Prop where
  flatten : data = chunks.flatten
  length : chunks.length = dimensions.size
  length_chunk : ∀ chunk ∈ chunks, chunk.length = chunkSize

theorem chunksOf_cellBytes {A : Ark} {dimensions : Dimensions} {scalars : List (List (Option ArkScalar))}
    {chunks : List (List UInt8)} (h : dimensions.iterData.mapM (cellBytes A scalars) = .ok chunks) :
    ChunksOf dimensions chunks.flatten chunks := by
  refine ⟨rfl, ?_, ?_⟩
  · rw [← (Except.mapM_ok_iff.mp h).length_eq, dimensions.iterData_eq, List.length_map, List.length_range]
  · intro chunk hchunk
    obtain ⟨p, -, hp⟩ := Except.exists_of_mem_mapM h hchunk
    exact length_cellBytes hp

theorem ChunksOf.length_data {dimensions : Dimensions} {data : List UInt8} {chunks : List (List UInt8)}
    (h : ChunksOf dimensions data chunks) : data.length = dimensions.size * chunkSize := by
  rw [h.flatten, length_flatten_uniform h.length_chunk, h.length]

/-- The bytes are whole chunks, so that one range is decoded as it is. -/
theorem ChunksOf.unflattenPaddedData_singleton {dimensions : Dimensions} {data : List UInt8}
    {chunks : List (List UInt8)} (h : ChunksOf dimensions data chunks) (K : Codec AppData)
    (app : AppId × DataLookupRange) :
    unflattenPaddedData K [app] data = (unflattenRange K data app).map fun group => [group] := by
  have hwhole : data.length % chunkSize = 0 := by rw [h.length_data, Nat.mul_mod_left]
  rw [unflattenPaddedData, decide_eq_true hwhole, Run.ensure_true, Except.ok_bind, List.mapM_cons]
  cases unflattenRange K data app with
  | error e => rfl
  | ok group => rfl

/-- As many bytes as the cells of the matrix have. -/
theorem length_of_reconstructAvailable {A : Ark} {R : Runtime} {dimensions : Dimensions} {cells : List DataCell}
    {data : List UInt8} (h : reconstructAvailable A R dimensions cells = .ok data) :
    data.length = dimensions.size * chunkSize := by
  obtain ⟨-, scalars, chunks, -, hchunks, rfl⟩ := reconstructAvailable_eq_ok_iff.mp h
  exact (chunksOf_cellBytes hchunks).length_data

theorem Mappable.inColumn_of_le {dimensions : Dimensions} {cells : List DataCell} (h : Mappable dimensions cells)
    {col : ℕ} (hcol : dimensions.width ≤ col) : inColumn cells col = [] := by
  rw [inColumn, List.filter_eq_nil_iff]
  intro c hc heq
  have hlt := (dimensions.extendedContains_iff.mp (h.contained c hc)).2
  rw [of_decide_eq_true heq] at hlt
  exact absurd hlt (not_lt.mpr hcol)

/-- There is a matrix when there are the scalars of each column that has cells. -/
theorem exists_reconstructAvailable_iff {A : Ark} {R : Runtime} {dimensions : Dimensions} {cells : List DataCell} :
    (∃ data, reconstructAvailable A R dimensions cells = .ok data) ↔ Mappable dimensions cells ∧
      ∀ col, inColumn cells col ≠ [] → ∃ scalars, columnOf A R dimensions cells col = .ok scalars := by
  constructor
  · rintro ⟨data, hdata⟩
    obtain ⟨hmap, scalars, chunks, hscalars, -⟩ := reconstructAvailable_eq_ok_iff.mp hdata
    refine ⟨hmap, fun col hne => ?_⟩
    have hcol : col ∈ List.range dimensions.width :=
      List.mem_range.mpr (not_le.mp fun hle => hne (hmap.inColumn_of_le hle))
    obtain ⟨entries, -, hentries⟩ := Except.exists_mem_of_mapM hscalars hcol
    rw [entriesOf, if_neg hne, Except.bind_eq_ok] at hentries
    obtain ⟨column, hcolumn, -⟩ := hentries
    exact ⟨column, hcolumn⟩
  · rintro ⟨hmap, hall⟩
    have hentries : ∀ col ∈ List.range dimensions.width, ∃ entries, entriesOf A R dimensions cells col = .ok entries := by
      intro col _
      rw [entriesOf]
      split_ifs with hnil
      · exact ⟨_, rfl⟩
      · obtain ⟨column, hcolumn⟩ := hall col hnil
        exact ⟨column.map some, by rw [hcolumn]; rfl⟩
    obtain ⟨scalars, hscalars⟩ := Except.exists_mapM hentries
    obtain ⟨chunks, hchunks⟩ := Except.exists_mapM fun p (_ : p ∈ dimensions.iterData) => exists_cellBytes A scalars p
    exact ⟨_, reconstructAvailable_eq_ok_iff.mpr ⟨hmap, scalars, chunks, hscalars, hchunks, rfl⟩⟩

/-- **The order of the cells does not matter.** -/
theorem reconstructAvailable_perm (A : Ark) (R R' : Runtime) (dimensions : Dimensions)
    {cells cells' : List DataCell} (h : cells.Perm cells') {data : List UInt8} :
    reconstructAvailable A R dimensions cells = .ok data ↔ reconstructAvailable A R' dimensions cells' = .ok data := by
  have hmap : Mappable dimensions cells ↔ Mappable dimensions cells' := ⟨fun hm => hm.perm h, fun hm => hm.perm h.symm⟩
  rw [reconstructAvailable_eq_ok_iff, reconstructAvailable_eq_ok_iff, ← hmap]
  refine and_congr_right fun hm => ?_
  have hentries : ∀ col, entriesOf A R dimensions cells col = entriesOf A R' dimensions cells' col :=
    fun col => entriesOf_perm A R R' hm.nodup (h.filter _)
  rw [Except.mapM_congr fun col _ => hentries col]

/-! ### Columns as they are -/

/-- The bytes of a column's scalars, from its cells in the order of the list. -/
def chunksOfColumn (A : Ark) (R : Runtime) (dimensions : Dimensions) (cells : List DataCell) (col : ℕ) :
    Run ReconstructionError (List Chunk) := do
  let scalars ← columnOf A R dimensions cells col
  scalars.mapM fun scalar => Run.okOr (.invalidColumn col) (A.toBytes scalar)

theorem chunksOfColumn_perm (A : Ark) (R R' : Runtime) {dimensions : Dimensions} {cells cells' : List DataCell}
    (hcells : (cells.map DataCell.position).Nodup) {col : ℕ} (h : (inColumn cells col).Perm (inColumn cells' col)) :
    chunksOfColumn A R dimensions cells col = chunksOfColumn A R' dimensions cells' col := by
  rw [chunksOfColumn, chunksOfColumn, columnOf_perm A R R' hcells h]

/-- Every scalar has bytes. -/
theorem exists_chunksOfColumn_iff {A : Ark} {R : Runtime} {dimensions : Dimensions} {cells : List DataCell} {col : ℕ} :
    (∃ chunks, chunksOfColumn A R dimensions cells col = .ok chunks) ↔
      ∃ scalars, columnOf A R dimensions cells col = .ok scalars := by
  simp only [chunksOfColumn, Except.bind_eq_ok]
  constructor
  · rintro ⟨chunks, scalars, hscalars, -⟩
    exact ⟨scalars, hscalars⟩
  · rintro ⟨scalars, hscalars⟩
    obtain ⟨chunks, hchunks⟩ := Run.exists_mapM_okOr_iff.mpr fun s (_ : s ∈ scalars) => A.toBytes_isSome s
    exact ⟨chunks, scalars, hscalars, hchunks⟩

theorem Columns.Hold.reconstructedColumn_eq_ok {columns : Columns} {cells : List DataCell} (h : columns.Hold cells)
    {A : Ark} {R : Runtime} {dimensions : Dimensions} (hnodup : (cells.map DataCell.position).Nodup) {col : ℕ}
    {column : Std.HashMap ℕ DataCell} (hcol : columns[col]? = some column) {r : ℕ × List Chunk} :
    reconstructedColumn A R dimensions (col, column) = .ok r ↔
      r.1 = col ∧ chunksOfColumn A R dimensions cells col = .ok r.2 := by
  obtain ⟨hsize, hrun⟩ := h.reconstructColumn_eq A R dimensions hnodup hcol
  simp only [reconstructedColumn, chunksOfColumn, columnOf, hsize, hrun, bind_assoc, Except.bind_eq_ok,
    Except.pure_eq_ok, Except.ok.injEq]
  constructor
  · intro hr
    obtain ⟨u, hu, scalars, hscalars, chunks, hchunks, rfl⟩ := hr
    exact ⟨rfl, u, hu, scalars, hscalars, hchunks⟩
  · intro hr
    obtain ⟨hfst, u, hu, scalars, hscalars, hchunks⟩ := hr
    exact ⟨u, hu, scalars, hscalars, r.2, hchunks, by rw [← hfst]⟩

theorem fst_of_reconstructedColumn {A : Ark} {R : Runtime} {dimensions : Dimensions}
    {entry : ℕ × Std.HashMap ℕ DataCell} {r : ℕ × List Chunk}
    (h : reconstructedColumn A R dimensions entry = .ok r) : r.1 = entry.1 := by
  simp only [reconstructedColumn, Except.bind_eq_ok, Except.pure_eq_ok, Except.ok.injEq] at h
  obtain ⟨-, -, -, -, -, -, rfl⟩ := h
  rfl

/-- What the map of reconstructed columns holds: the bytes of each column with cells. -/
def IsColumns (A : Ark) (R : Runtime) (dimensions : Dimensions) (cells : List DataCell)
    (m : Std.ExtHashMap ℕ (List Chunk)) : Prop :=
  ∀ col, if inColumn cells col = [] then m[col]? = none
    else ∃ chunks, chunksOfColumn A R dimensions cells col = .ok chunks ∧ m[col]? = some chunks

theorem isColumns_of_mapM {A : Ark} {R : Runtime} {T : Traversal (ℕ × Std.HashMap ℕ DataCell)}
    {dimensions : Dimensions} {cells : List DataCell} {columns : Columns} (hhold : columns.Hold cells)
    (hnodup : (cells.map DataCell.position).Nodup) {reconstructed : List (ℕ × List Chunk)}
    (h : (T.order columns.toList).mapM (reconstructedColumn A R dimensions) = .ok reconstructed) :
    IsColumns A R dimensions cells (Std.ExtHashMap.ofList reconstructed) := by
  have hkeys : reconstructed.map Prod.fst = (T.order columns.toList).map Prod.fst :=
    Except.map_eq_of_mapM h fun _ _ hr => fst_of_reconstructedColumn hr
  have hperm : (reconstructed.map Prod.fst).Perm columns.keys := by
    rw [hkeys, ← Std.HashMap.map_fst_toList_eq_keys]
    exact (T.order_perm _).map _
  intro col
  split_ifs with hnil
  · -- no entry has this key
    apply Std.ExtHashMap.getElem?_ofList_of_contains_eq_false
    rw [← Bool.not_eq_true, List.contains_iff_mem, hperm.mem_iff, Std.HashMap.mem_keys,
      Std.HashMap.mem_iff_isSome_getElem?, (hhold.getElem?_eq_none_iff col).mpr hnil]
    exact Bool.false_ne_true
  · obtain ⟨column, hcol⟩ := Option.ne_none_iff_exists'.mp (mt (hhold.getElem?_eq_none_iff col).mp hnil)
    have hmem : (col, column) ∈ T.order columns.toList :=
      (T.order_perm _).mem_iff.mpr (Std.HashMap.mem_toList_iff_getElem?_eq_some.mpr hcol)
    obtain ⟨⟨col', chunks⟩, hr, hrun⟩ := Except.exists_mem_of_mapM h hmem
    obtain ⟨rfl, hchunks⟩ := (hhold.reconstructedColumn_eq_ok hnodup hcol).mp hrun
    refine ⟨chunks, hchunks, Std.ExtHashMap.getElem?_ofList_of_mem (beq_self_eq_true _) ?_ hr⟩
    have hdistinct := List.pairwise_map.mp (hperm.nodup_iff.mpr columns.nodup_keys)
    exact hdistinct.imp fun hne => beq_eq_false_iff_ne.mpr hne

theorem IsColumns.unique {A : Ark} {R : Runtime} {dimensions : Dimensions} {cells : List DataCell}
    {m m' : Std.ExtHashMap ℕ (List Chunk)} (h : IsColumns A R dimensions cells m)
    (h' : IsColumns A R dimensions cells m') : m = m' := by
  refine Std.ExtHashMap.ext_getElem? fun col => ?_
  have hcol := h col
  have hcol' := h' col
  split_ifs at hcol hcol' with hnil
  · rw [hcol, hcol']
  · obtain ⟨chunks, hchunks, hget⟩ := hcol
    obtain ⟨chunks', hchunks', hget'⟩ := hcol'
    rw [hchunks, Except.ok.injEq] at hchunks'
    rw [hget, hget', hchunks']

/-- With the bytes of each column that has cells, there is a map of them. -/
theorem exists_reconstructColumns {A : Ark} {R : Runtime} (T : Traversal (ℕ × Std.HashMap ℕ DataCell))
    {dimensions : Dimensions} {cells : List SingleCell} (hmap : Mappable dimensions (cells.map SingleCell.toDataCell))
    (hall : ∀ col, inColumn (cells.map SingleCell.toDataCell) col ≠ [] →
      ∃ chunks, chunksOfColumn A R dimensions (cells.map SingleCell.toDataCell) col = .ok chunks) :
    ∃ m, reconstructColumns A R T dimensions cells = .ok m ∧
      IsColumns A R dimensions (cells.map SingleCell.toDataCell) m := by
  obtain ⟨columns, hcolumns⟩ := exists_mapCells_iff.mpr hmap
  obtain ⟨hhold, -, hnodup⟩ := hold_of_mapCells hcolumns
  have hentries : ∀ e ∈ T.order columns.toList, ∃ r, reconstructedColumn A R dimensions e = .ok r := by
    intro e he
    have hcol : columns[e.1]? = some e.2 :=
      Std.HashMap.mem_toList_iff_getElem?_eq_some.mp ((T.order_perm _).mem_iff.mp he)
    have hne : inColumn (cells.map SingleCell.toDataCell) e.1 ≠ [] := by
      rw [Ne, ← hhold.getElem?_eq_none_iff, hcol]
      exact Option.some_ne_none e.2
    obtain ⟨chunks, hchunks⟩ := hall e.1 hne
    exact ⟨(e.1, chunks), (hhold.reconstructedColumn_eq_ok hnodup hcol).mpr ⟨rfl, hchunks⟩⟩
  obtain ⟨reconstructed, hrun⟩ := Except.exists_mapM hentries
  refine ⟨Std.ExtHashMap.ofList reconstructed, ?_, isColumns_of_mapM hhold hnodup hrun⟩
  rw [reconstructColumns, hcolumns, Except.ok_bind, hrun]
  rfl

/-- **The columns are reconstructed when the bytes of each column with cells are there.** -/
theorem reconstructColumns_eq_ok_iff {A : Ark} {R : Runtime} {T : Traversal (ℕ × Std.HashMap ℕ DataCell)}
    {dimensions : Dimensions} {cells : List SingleCell} {m : Std.ExtHashMap ℕ (List Chunk)} :
    reconstructColumns A R T dimensions cells = .ok m ↔
      Mappable dimensions (cells.map SingleCell.toDataCell) ∧
        IsColumns A R dimensions (cells.map SingleCell.toDataCell) m := by
  constructor
  · intro h
    simp only [reconstructColumns, Except.bind_eq_ok, Except.pure_eq_ok, Except.ok.injEq] at h
    obtain ⟨columns, hmap, reconstructed, hrun, rfl⟩ := h
    obtain ⟨hhold, -, hnodup⟩ := hold_of_mapCells hmap
    exact ⟨exists_mapCells_iff.mp ⟨columns, hmap⟩, isColumns_of_mapM hhold hnodup hrun⟩
  · rintro ⟨hmap, hm⟩
    obtain ⟨m', hrun, hm'⟩ := exists_reconstructColumns T hmap fun col hne => by
      have hcol := hm col
      rw [if_neg hne] at hcol
      obtain ⟨chunks, hchunks, -⟩ := hcol
      exact ⟨chunks, hchunks⟩
    rw [hrun, hm.unique hm']

/-! ### The cells where the data is -/

/-- The cell in a position. -/
def cellIn (cells : List DataCell) (position : Position) : Option DataCell :=
  cells.find? fun c => c.position = position

theorem cellIn_eq_some {cells : List DataCell} (h : (cells.map DataCell.position).Nodup) {p : Position}
    {c : DataCell} : cellIn cells p = some c ↔ c ∈ cells ∧ c.position = p := find?_eq_some_of_nodup h

theorem cellIn_perm {cells cells' : List DataCell} (h : cells.Perm cells')
    (hnodup : (cells.map DataCell.position).Nodup) : cellIn cells = cellIn cells' :=
  funext fun p => find?_perm_of_nodup h hnodup p

theorem isSome_cellIn {cells : List DataCell} {p : Position} :
    (cellIn cells p).isSome ↔ p ∈ cells.map DataCell.position := by
  rw [cellIn, List.find?_isSome, List.mem_map]
  simp only [decide_eq_true_eq]

/-- What the maps have in a row of a column is the cell in that position. -/
theorem Columns.Hold.entry_eq_some_iff {columns : Columns} {cells : List DataCell} (h : columns.Hold cells)
    {col row : ℕ} {c : DataCell} : (columns[col]?.bind fun column => column[row]?) = some c ↔
      c ∈ cells ∧ c.position = ⟨row, col⟩ := by
  have hget : (columns[col]?.bind fun column => column[row]?) = (columns.getD col ∅)[row]? := by
    rw [Std.HashMap.getD_eq_getD_getElem?]
    cases columns[col]? with
    | none => simp
    | some column => rfl
  rw [hget, ← Std.HashMap.mem_toList_iff_getElem?_eq_some, (h.perm col).mem_iff, List.mem_map]
  constructor
  · rintro ⟨c', hc', heq⟩
    obtain ⟨hmem, hcol⟩ := List.mem_filter.mp hc'
    rw [Prod.mk.injEq] at heq
    obtain ⟨hrow, rfl⟩ := heq
    exact ⟨hmem, Position.ext hrow (of_decide_eq_true hcol)⟩
  · rintro ⟨hmem, hpos⟩
    refine ⟨c, List.mem_filter.mpr ⟨hmem, ?_⟩, ?_⟩
    · rw [hpos]
      exact decide_eq_true rfl
    · rw [hpos]

/-- The cells in the maps are those of the list; the filter leaves them all. -/
theorem Columns.Hold.cellAt_eq {columns : Columns} {cells : List DataCell} (h : columns.Hold cells)
    (hnodup : (cells.map DataCell.position).Nodup) : columns.cellAt = cellIn cells := by
  refine funext fun p => Option.ext fun c => ?_
  have hdata : (!c.data.val.isEmpty) = true := by
    rw [Bool.not_eq_true', List.isEmpty_eq_false_iff]
    exact List.ne_nil_of_length_pos (chunkSize_pos.trans_eq c.data.property.symm)
  rw [Columns.cellAt, Option.filter_eq_some_iff, h.entry_eq_some_iff, cellIn_eq_some hnodup]
  exact and_iff_left hdata

/-- The bytes in a position, zeros when there is no cell. -/
def chunkIn (cells : List DataCell) (position : Position) : List UInt8 :=
  match cellIn cells position with
  | none => List.replicate chunkSize 0
  | some cell => cell.data.val

/-- The bytes of the cells where the extended matrix has the data, row by row. -/
def dataIn (dimensions : Dimensions) (cells : List DataCell) : List UInt8 :=
  ((List.range dimensions.size).map fun i => chunkIn cells (dimensions.extendedDataPosition i)).flatten

theorem length_chunkIn (cells : List DataCell) (position : Position) :
    (chunkIn cells position).length = chunkSize := by
  unfold chunkIn
  cases cellIn cells position with
  | none => exact List.length_replicate
  | some cell => exact cell.data.property

theorem chunksOf_dataIn (dimensions : Dimensions) (cells : List DataCell) :
    ChunksOf dimensions (dataIn dimensions cells)
      ((List.range dimensions.size).map fun i => chunkIn cells (dimensions.extendedDataPosition i)) := by
  refine ⟨rfl, by rw [List.length_map, List.length_range], ?_⟩
  intro chunk hchunk
  obtain ⟨i, -, rfl⟩ := List.mem_map.mp hchunk
  exact length_chunkIn ..

section Positions

variable {index : DataLookup} {dimensions : Dimensions} {appId : AppId} {range : DataLookupRange}
  (hrange : index.rangeOf appId = some range)
include hrange

/-- The positions of an application are there when its range ends inside the matrix. -/
theorem appSpecificCells_eq_some {positions : List Position} : appSpecificCells index dimensions appId = some positions ↔
    range.end_.toNat ≤ dimensions.size ∧
      positions = (List.range' range.start.toNat (range.end_.toNat - range.start.toNat)).map
        dimensions.extendedDataPosition := by
  rw [appSpecificCells, hrange, Option.bind_some, Dimensions.extendedDataPositions_eq_some]

theorem exists_appSpecificCells (hne : range.start < range.end_) (hsize : range.end_.toNat ≤ dimensions.size) :
    ∃ positions, appSpecificCells index dimensions appId = some positions ∧ positions ≠ [] ∧
      ∀ p, p ∈ positions ↔ ∃ i, range.start.toNat ≤ i ∧ i < range.end_.toNat ∧ dimensions.extendedDataPosition i = p := by
  have hlt := UInt32.lt_iff_toNat_lt.mp hne
  refine ⟨_, (appSpecificCells_eq_some hrange).mpr ⟨hsize, rfl⟩, ?_, fun p => ?_⟩
  · rw [Ne, List.map_eq_nil_iff, List.range'_eq_nil_iff]
    omega
  · simp only [List.mem_map, List.mem_range'_1, Nat.add_sub_cancel' hlt.le, and_assoc]

end Positions

/-- What `decode_app_extrinsics` does with cells that are mapped, when the application has a range. -/
theorem decodeAppExtrinsics_of_mappable {K : Codec AppData} {index : DataLookup} {dimensions : Dimensions}
    {cells : List DataCell} {appId : AppId} {positions : List Position}
    (hpositions : appSpecificCells index dimensions appId = some positions) (hne : positions ≠ [])
    (h : Mappable dimensions cells) : decodeAppExtrinsics K index dimensions cells appId = (do
      let _ ← positions.mapM fun position => Run.okOr (.missingCell position) (cellIn cells position)
      let unflattened ← (unflattenPaddedData K
        (((index.projectedRangeOf appId (UInt32.ofNat chunkSize)).map fun range => [(appId, range)]).getD [])
        (dataIn dimensions cells)).mapErr .dataDecodingError
      return unflattened.flatMap Prod.snd) := by
  obtain ⟨columns, hrun⟩ := exists_mapCells_iff.mpr h
  obtain ⟨hhold, -, hnodup⟩ := hold_of_mapCells hrun
  have hempty : positions.isEmpty = false := List.isEmpty_eq_false_iff.mpr hne
  simp only [decodeAppExtrinsics, hpositions, Option.getD_some, hempty, Bool.false_eq_true, if_false, hrun,
    Except.ok_bind, hhold.cellAt_eq hnodup, dimensions.iterExtendedDataPositions_eq, List.flatMap_map]
  rfl

/-- With cells that are not mapped, it fails. -/
theorem decodeAppExtrinsics_of_not_mappable {K : Codec AppData} {index : DataLookup} {dimensions : Dimensions}
    {cells : List DataCell} {appId : AppId} {positions : List Position}
    (hpositions : appSpecificCells index dimensions appId = some positions) (hne : positions ≠ [])
    (h : ¬ Mappable dimensions cells) : ∃ e, decodeAppExtrinsics K index dimensions cells appId = Run.fail e := by
  have hnot : ∀ columns, mapCells dimensions cells ≠ .ok columns := by
    intro columns hrun
    exact h (exists_mapCells_iff.mp ⟨columns, hrun⟩)
  obtain ⟨e, he⟩ := (mapCells_returns dimensions cells).exists_fail hnot
  have hempty : positions.isEmpty = false := List.isEmpty_eq_false_iff.mpr hne
  refine ⟨e, ?_⟩
  simp only [decodeAppExtrinsics, hpositions, Option.getD_some, hempty, Bool.false_eq_true, if_false, he]
  rfl

/-- When a position has no cell, a search finds the first one. -/
theorem exists_find?_missing {positions : List Position} {cells : List DataCell}
    (h : ∃ p ∈ positions, p ∉ cells.map DataCell.position) :
    ∃ p, (positions.find? fun p => p ∉ cells.map DataCell.position) = some p := by
  obtain ⟨p, hp, hmissing⟩ := h
  exact Option.isSome_iff_exists.mp (List.find?_isSome.mpr ⟨p, hp, decide_eq_true hmissing⟩)

/-- The first position without a cell is the one it fails for. -/
theorem decodeAppExtrinsics_of_missing {K : Codec AppData} {index : DataLookup} {dimensions : Dimensions}
    {cells : List DataCell} {appId : AppId} {positions : List Position}
    (hpositions : appSpecificCells index dimensions appId = some positions) (h : Mappable dimensions cells)
    {p : Position} (hfirst : (positions.find? fun p => p ∉ cells.map DataCell.position) = some p) :
    decodeAppExtrinsics K index dimensions cells appId = Run.fail (.missingCell p) := by
  have hne : positions ≠ [] := by
    rintro rfl
    cases hfirst
  have hnone : (fun p => decide (p ∉ cells.map DataCell.position)) = fun p => (cellIn cells p).isNone := by
    refine funext fun p => ?_
    rw [← Option.not_isSome, Bool.eq_iff_iff, decide_eq_true_eq, Bool.not_eq_true', ← isSome_cellIn,
      Bool.not_eq_true]
  rw [hnone] at hfirst
  rw [decodeAppExtrinsics_of_mappable hpositions hne h, Run.mapM_okOr_of_find? hfirst]
  rfl

/-- Cells that cannot be mapped, or a position without a cell, are an error. -/
theorem exists_decodeAppExtrinsics_fail {K : Codec AppData} {index : DataLookup} {dimensions : Dimensions}
    {cells : List DataCell} {appId : AppId} {positions : List Position}
    (hpositions : appSpecificCells index dimensions appId = some positions) (hne : positions ≠ [])
    (h : ¬ Mappable dimensions cells ∨ ∃ p ∈ positions, p ∉ cells.map DataCell.position) :
    ∃ e, decodeAppExtrinsics K index dimensions cells appId = Run.fail e := by
  by_cases hm : Mappable dimensions cells
  · obtain ⟨p, hfirst⟩ := exists_find?_missing (h.resolve_left (not_not_intro hm))
    exact ⟨_, decodeAppExtrinsics_of_missing hpositions hm hfirst⟩
  · exact decodeAppExtrinsics_of_not_mappable hpositions hne hm

theorem found_of_decodeAppExtrinsics {K : Codec AppData} {index : DataLookup} {dimensions : Dimensions}
    {cells : List DataCell} {appId : AppId} {positions : List Position}
    (hpositions : appSpecificCells index dimensions appId = some positions) (hne : positions ≠ []) {xs : AppData}
    (h : decodeAppExtrinsics K index dimensions cells appId = .ok xs) :
    Mappable dimensions cells ∧ ∀ p ∈ positions, p ∈ cells.map DataCell.position := by
  by_contra hnot
  rw [Classical.not_and_iff_not_or_not] at hnot
  push Not at hnot
  obtain ⟨e, he⟩ := exists_decodeAppExtrinsics_fail (K := K) hpositions hne hnot
  rw [he] at h
  cases h

/-- With a cell in each position, the bytes are decoded. -/
theorem decodeAppExtrinsics_of_found {K : Codec AppData} {index : DataLookup} {dimensions : Dimensions}
    {cells : List DataCell} {appId : AppId} {positions : List Position}
    (hpositions : appSpecificCells index dimensions appId = some positions) (hne : positions ≠ [])
    (h : Mappable dimensions cells) (hfound : ∀ p ∈ positions, p ∈ cells.map DataCell.position) :
    decodeAppExtrinsics K index dimensions cells appId = (do
      let unflattened ← (unflattenPaddedData K
        (((index.projectedRangeOf appId (UInt32.ofNat chunkSize)).map fun range => [(appId, range)]).getD [])
        (dataIn dimensions cells)).mapErr .dataDecodingError
      return unflattened.flatMap Prod.snd) := by
  have hcells : ∀ p ∈ positions, ∃ c, (Run.okOr (.missingCell p) (cellIn cells p) : Run ReconstructionError _) = .ok c := by
    intro p hp
    obtain ⟨c, hc⟩ := Option.isSome_iff_exists.mp (isSome_cellIn.mpr (hfound p hp))
    exact ⟨c, Run.okOr_eq_ok.mpr hc⟩
  obtain ⟨found, hrun⟩ := Except.exists_mapM hcells
  rw [decodeAppExtrinsics_of_mappable hpositions hne h, hrun, Except.ok_bind]

/-- The extrinsics in its range are returned. -/
theorem decodeAppExtrinsics_eq_ok {K : Codec AppData} {index : DataLookup} {dimensions : Dimensions}
    {cells : List DataCell} {appId : AppId} {positions : List Position}
    (hpositions : appSpecificCells index dimensions appId = some positions) (hne : positions ≠ [])
    (h : Mappable dimensions cells) (hfound : ∀ p ∈ positions, p ∈ cells.map DataCell.position)
    {range : DataLookupRange} (hproject : index.projectedRangeOf appId (UInt32.ofNat chunkSize) = some range)
    {xs : AppData} (hrun : unflattenRange K (dataIn dimensions cells) (appId, range) = .ok (appId, xs)) :
    decodeAppExtrinsics K index dimensions cells appId = .ok xs := by
  rw [decodeAppExtrinsics_of_found hpositions hne h hfound, hproject, Option.map_some, Option.getD_some,
    (chunksOf_dataIn dimensions cells).unflattenPaddedData_singleton, hrun]
  exact congrArg Except.ok (List.append_nil xs)

/-! ### The order of the cells -/

/-- Cells that are sent are used for their positions and data only. -/
theorem reconstructColumns_perm_toDataCell (A : Ark) (R R' : Runtime)
    (T T' : Traversal (ℕ × Std.HashMap ℕ DataCell)) (dimensions : Dimensions) {cells cells' : List SingleCell}
    (hcells : (cells.map SingleCell.toDataCell).Perm (cells'.map SingleCell.toDataCell))
    {m : Std.ExtHashMap ℕ (List Chunk)} :
    reconstructColumns A R T dimensions cells = .ok m ↔ reconstructColumns A R' T' dimensions cells' = .ok m := by
  have hmap : Mappable dimensions (cells.map SingleCell.toDataCell) ↔
      Mappable dimensions (cells'.map SingleCell.toDataCell) := ⟨fun hm => hm.perm hcells, fun hm => hm.perm hcells.symm⟩
  rw [reconstructColumns_eq_ok_iff, reconstructColumns_eq_ok_iff, ← hmap]
  refine and_congr_right fun hm => forall_congr' fun col => ?_
  have hcol : (inColumn (cells.map SingleCell.toDataCell) col).Perm
      (inColumn (cells'.map SingleCell.toDataCell) col) := hcells.filter _
  have hnil : inColumn (cells.map SingleCell.toDataCell) col = [] ↔
      inColumn (cells'.map SingleCell.toDataCell) col = [] := by
    rw [← List.length_eq_zero_iff, ← List.length_eq_zero_iff, hcol.length_eq]
  simp only [hnil, chunksOfColumn_perm A R R' hm.nodup hcol]

theorem reconstructColumns_perm (A : Ark) (R R' : Runtime) (T T' : Traversal (ℕ × Std.HashMap ℕ DataCell))
    (dimensions : Dimensions) {cells cells' : List SingleCell} (h : cells.Perm cells')
    {m : Std.ExtHashMap ℕ (List Chunk)} :
    reconstructColumns A R T dimensions cells = .ok m ↔ reconstructColumns A R' T' dimensions cells' = .ok m :=
  reconstructColumns_perm_toDataCell A R R' T T' dimensions (h.map _)

theorem decodeAppExtrinsics_perm (K : Codec AppData) (index : DataLookup) (dimensions : Dimensions)
    {cells cells' : List DataCell} (h : cells.Perm cells') (appId : AppId) {v : AppData} :
    decodeAppExtrinsics K index dimensions cells appId = .ok v ↔
      decodeAppExtrinsics K index dimensions cells' appId = .ok v := by
  by_cases hempty : ((appSpecificCells index dimensions appId).getD []).isEmpty
  · -- no cell is looked at
    simp only [decodeAppExtrinsics, hempty, if_true]
  · obtain ⟨positions, hpositions⟩ : ∃ positions, appSpecificCells index dimensions appId = some positions := by
      rw [← Option.ne_none_iff_exists']
      intro hnone
      rw [hnone] at hempty
      exact hempty rfl
    rw [hpositions, Option.getD_some, List.isEmpty_iff] at hempty
    by_cases hm : Mappable dimensions cells
    · rw [decodeAppExtrinsics_of_mappable hpositions hempty hm,
        decodeAppExtrinsics_of_mappable hpositions hempty (hm.perm h)]
      have hdata : dataIn dimensions cells = dataIn dimensions cells' := by
        simp only [dataIn, chunkIn, cellIn_perm h hm.nodup]
      rw [cellIn_perm h hm.nodup, hdata]
    · obtain ⟨e, he⟩ := decodeAppExtrinsics_of_not_mappable (K := K) hpositions hempty hm
      obtain ⟨e', he'⟩ := decodeAppExtrinsics_of_not_mappable (K := K) hpositions hempty fun hm' => hm (hm'.perm h.symm)
      rw [he, he']
      constructor
      · intro hv
        cases hv
      · intro hv
        cases hv

/-- **The order of the cells does not matter**, nor that in which a hash map is traversed: what is returned for
one list is returned for every other order of it. -/
theorem order_irrelevant (A : Ark) (R R' : Runtime) (T T' : Traversal (ℕ × Std.HashMap ℕ DataCell))
    (K : Codec AppData) (index : DataLookup) (dimensions : Dimensions) (appId : AppId)
    {cells cells' : List DataCell} (h : cells.Perm cells') {sent sent' : List SingleCell} (hsent : sent.Perm sent') :
    (∀ v, reconstructExtrinsics A R K index dimensions cells = .ok v ↔
      reconstructExtrinsics A R' K index dimensions cells' = .ok v) ∧
    (∀ v, reconstructAppExtrinsics A R K index dimensions cells appId = .ok v ↔
      reconstructAppExtrinsics A R' K index dimensions cells' appId = .ok v) ∧
    (∀ v, decodeAppExtrinsics K index dimensions cells appId = .ok v ↔
      decodeAppExtrinsics K index dimensions cells' appId = .ok v) ∧
    ∀ v, reconstructColumns A R T dimensions sent = .ok v ↔ reconstructColumns A R' T' dimensions sent' = .ok v := by
  refine ⟨fun v => ?_, fun v => ?_, fun v => ?_, fun v => ?_⟩
  · simp only [reconstructExtrinsics, Except.bind_eq_ok, reconstructAvailable_perm A R R' dimensions h]
  · simp only [reconstructAppExtrinsics, Except.bind_eq_ok, reconstructAvailable_perm A R R' dimensions h]
  · exact decodeAppExtrinsics_perm K index dimensions h appId
  · exact reconstructColumns_perm A R R' T T' dimensions hsent

theorem order_irrelevant_swap :
    (∀ v, reconstructExtrinsics bls12381 Runtime.plain scaleAppData ⟨[(⟨0⟩, ⟨0, 1⟩)]⟩
        ⟨⟨1, by decide⟩, ⟨1, by decide⟩⟩ [⟨⟨0, 0⟩, smallChunk 4⟩, ⟨⟨1, 0⟩, smallChunk 4⟩] = .ok v ↔
      reconstructExtrinsics bls12381 Runtime.plain scaleAppData ⟨[(⟨0⟩, ⟨0, 1⟩)]⟩
        ⟨⟨1, by decide⟩, ⟨1, by decide⟩⟩ [⟨⟨1, 0⟩, smallChunk 4⟩, ⟨⟨0, 0⟩, smallChunk 4⟩] = .ok v) ∧
    ∀ v, reconstructColumns bls12381 Runtime.plain (Traversal.plain _) ⟨⟨1, by decide⟩, ⟨2, by decide⟩⟩
        [⟨⟨0, 0⟩, List.Vector.replicate 80 0⟩, ⟨⟨1, 1⟩, List.Vector.replicate 80 0⟩] = .ok v ↔
      reconstructColumns bls12381 Runtime.plain (Traversal.backwards _) ⟨⟨1, by decide⟩, ⟨2, by decide⟩⟩
        [⟨⟨1, 1⟩, List.Vector.replicate 80 0⟩, ⟨⟨0, 0⟩, List.Vector.replicate 80 0⟩] = .ok v := by
  have hcells := order_irrelevant bls12381 Runtime.plain Runtime.plain (Traversal.plain _) (Traversal.backwards _)
    scaleAppData ⟨[(⟨0⟩, ⟨0, 1⟩)]⟩ ⟨⟨1, by decide⟩, ⟨1, by decide⟩⟩ ⟨0⟩
    (List.Perm.swap (⟨⟨1, 0⟩, smallChunk 4⟩ : DataCell) ⟨⟨0, 0⟩, smallChunk 4⟩ []) (List.Perm.refl [])
  have hsent := order_irrelevant bls12381 Runtime.plain Runtime.plain (Traversal.plain _) (Traversal.backwards _)
    scaleAppData ⟨[]⟩ ⟨⟨1, by decide⟩, ⟨2, by decide⟩⟩ ⟨0⟩ (List.Perm.refl [])
    (List.Perm.swap (⟨⟨1, 1⟩, List.Vector.replicate 80 0⟩ : SingleCell) ⟨⟨0, 0⟩, List.Vector.replicate 80 0⟩ [])
  exact ⟨hcells.1, hsent.2.2.2⟩

/-! ### The columns of an application -/

/-- A slice at the boundaries of cells is that of the chunks of these cells. -/
theorem ChunksOf.slice_congr {dimensions : Dimensions} {data data' : List UInt8} {chunks chunks' : List (List UInt8)}
    (h : ChunksOf dimensions data chunks) (h' : ChunksOf dimensions data' chunks') {start end_ : ℕ}
    (hsame : ∀ i, start ≤ i → i < end_ → chunks[i]? = chunks'[i]?) :
    (Run.slice data (start * chunkSize) (end_ * chunkSize) : Run UnflattenError (List UInt8)) =
      Run.slice data' (start * chunkSize) (end_ * chunkSize) := by
  have hchunks : (chunks.drop start).take (end_ - start) = (chunks'.drop start).take (end_ - start) := by
    refine List.ext_getElem? fun i => ?_
    rw [List.getElem?_take, List.getElem?_take, List.getElem?_drop, List.getElem?_drop]
    split_ifs with hi
    · exact hsame (start + i) (Nat.le_add_right ..) (by omega)
    · rfl
  rw [Run.slice, Run.slice, h.length_data, h'.length_data, h.flatten, h'.flatten,
    slice_flatten_uniform h.length_chunk, slice_flatten_uniform h'.length_chunk, hchunks]

/-- What is decoded at a range of cells depends on their chunks only. -/
theorem ChunksOf.unflattenRange_congr {dimensions : Dimensions} {data data' : List UInt8}
    {chunks chunks' : List (List UInt8)} (h : ChunksOf dimensions data chunks) (h' : ChunksOf dimensions data' chunks')
    {range r : DataLookupRange} (hproject : range.project (UInt32.ofNat chunkSize) = some r)
    (hsame : ∀ i, range.start.toNat ≤ i → i < range.end_.toNat → chunks[i]? = chunks'[i]?) (K : Codec AppData)
    (id : AppId) : unflattenRange K data (id, r) = unflattenRange K data' (id, r) := by
  obtain ⟨hstart, hend⟩ := DataLookupRange.project_eq_some.mp hproject
  rw [show (UInt32.ofNat chunkSize).toNat = chunkSize from rfl] at hstart hend
  rw [unflattenRange, unflattenRange, hstart, hend, h.slice_congr h' hsame]

/-- **The data of an application depends on its columns only**: with the same cells in the columns of the cells
in its range, whatever the other columns hold, the result is the same. -/
theorem reconstructAppExtrinsics_columns (A : Ark) (R R' : Runtime) (K : Codec AppData) {index : DataLookup}
    {dimensions : Dimensions} {appId : AppId} {range : DataLookupRange} (hrange : index.rangeOf appId = some range)
    {cells cells' : List DataCell} {data data' : List UInt8}
    (h : reconstructAvailable A R dimensions cells = .ok data)
    (h' : reconstructAvailable A R' dimensions cells' = .ok data')
    (hsame : ∀ cell, range.start.toNat ≤ cell → cell < range.end_.toNat →
      ∀ c, c ∈ inColumn cells (cell % dimensions.width) ↔ c ∈ inColumn cells' (cell % dimensions.width)) :
    reconstructAppExtrinsics A R K index dimensions cells appId =
      reconstructAppExtrinsics A R' K index dimensions cells' appId := by
  rw [reconstructAppExtrinsics, reconstructAppExtrinsics, h, h', DataLookup.projectedRangeOf, hrange, Option.bind_some]
  cases hproject : range.project (UInt32.ofNat chunkSize) with
  | none => rfl
  | some r =>
    obtain ⟨hm, scalars, chunks, hscalars, hchunks, rfl⟩ := reconstructAvailable_eq_ok_iff.mp h
    obtain ⟨hm', scalars', chunks', hscalars', hchunks', rfl⟩ := reconstructAvailable_eq_ok_iff.mp h'
    have hcell : ∀ i, range.start.toNat ≤ i → i < range.end_.toNat → chunks[i]? = chunks'[i]? := by
      intro i hlo hhi
      refine Except.getElem?_mapM_congr hchunks hchunks' fun p hp => cellBytes_congr A ?_
      -- the cell is in a column of the range
      rw [dimensions.iterData_eq, List.getElem?_map, Option.map_eq_some_iff] at hp
      obtain ⟨i', hi', rfl⟩ := hp
      obtain ⟨hlt, rfl⟩ := List.getElem?_eq_some_iff.mp hi'
      refine Except.getElem?_mapM_congr hscalars hscalars' fun col hcol => ?_
      obtain ⟨hlt', rfl⟩ := List.getElem?_eq_some_iff.mp hcol
      rw [List.getElem_range, List.getElem_range]
      exact entriesOf_perm A R R' hm.nodup (hm.inColumn_perm hm' (hsame i hlo hhi))
    have hrun := (chunksOf_cellBytes hchunks).unflattenRange_congr (chunksOf_cellBytes hchunks') hproject hcell K appId
    simp only [Except.ok_bind, Run.okOr_some, (chunksOf_cellBytes hchunks).unflattenPaddedData_singleton,
      (chunksOf_cellBytes hchunks').unflattenPaddedData_singleton, hrun]

/-- One row of two columns. -/
def twoColumns : Dimensions := ⟨⟨1, NonZeroU16.one_bounds⟩, ⟨2, NonZeroU16.two_bounds⟩⟩

/-- A column of one scalar is read from one of its two cells. -/
theorem entriesOf_twoColumns {cells : List DataCell} {row col : ℕ} (hrow : row < 2) {s : ArkScalar} {b : Chunk}
    (hs : bls12381.toBytes s = some b) (hcol : inColumn cells col = [⟨⟨row, col⟩, b⟩]) :
    entriesOf bls12381 Runtime.plain twoColumns cells col = .ok [some s] := by
  have hrun : reconstructColumn bls12381 Runtime.plain twoColumns.extendedRows [⟨⟨row, col⟩, b⟩] = .ok [s] := by
    have hdom : ColumnDomains bls12381 0 ⟨1, ArkScalar.rootOfUnity 0⟩ ⟨2, ArkScalar.rootOfUnity 1⟩ :=
      ⟨bls12381_newDomain_one, bls12381_newDomain_two⟩
    refine hdom.reconstructColumn_fft_ifft Runtime.plain rfl ⟨by simp, by simp, ?_⟩ le_rfl
    intro c hc
    obtain rfl := List.mem_singleton.mp hc
    refine ⟨s, ?_, hs⟩
    rw [bls12381_extend_one]
    rcases Nat.lt_succ_iff_lt_or_eq.mp hrow with hlt | rfl
    · obtain rfl := Nat.lt_one_iff.mp hlt
      rfl
    · rfl
  rw [entriesOf, hcol, if_neg (List.cons_ne_nil _ _), columnOf, hcol, hrun]
  rfl

/-- The data in the first column, whether the second has cells or not. -/
theorem reconstructAvailable_twoColumns {cells : List DataCell} {second : Option ArkScalar} {chunk : List UInt8}
    (hcells : Mappable twoColumns cells) (hfirst : inColumn cells 0 = [⟨⟨1, 0⟩, smallChunk 4⟩])
    (hsecond : entriesOf bls12381 Runtime.plain twoColumns cells 1 = .ok [second])
    (hchunk : cellBytes bls12381 [[some 4], [second]] (0, 1) = .ok chunk) :
    reconstructAvailable bls12381 Runtime.plain twoColumns cells = .ok ((smallChunk 4).val ++ chunk) := by
  have h4 : bls12381.toBytes 4 = some (smallChunk 4) := rfl
  have hentry := entriesOf_twoColumns one_lt_two h4 hfirst
  have hfour : cellBytes bls12381 [[some 4], [second]] (0, 0) = .ok (smallChunk 4).val := rfl
  have hwidth : List.range twoColumns.width = [0, 1] := rfl
  have hdata : twoColumns.iterData = [(0, 0), (0, 1)] := rfl
  refine reconstructAvailable_eq_ok_iff.mpr ⟨hcells, [[some 4], [second]], [(smallChunk 4).val, chunk], ?_, ?_, ?_⟩
  · rw [hwidth, List.mapM_cons, hentry, List.mapM_cons, hsecond]
    rfl
  · rw [hdata, List.mapM_cons, hfour, List.mapM_cons, hchunk]
    rfl
  · rw [List.flatten_cons, List.flatten_cons, List.flatten_nil, List.append_nil]

theorem reconstructAppExtrinsics_columns_two :
    reconstructAppExtrinsics bls12381 Runtime.plain scaleAppData ⟨[(⟨0⟩, ⟨0, 1⟩)]⟩ twoColumns
        [⟨⟨1, 0⟩, smallChunk 4⟩] ⟨0⟩ =
      reconstructAppExtrinsics bls12381 Runtime.plain scaleAppData ⟨[(⟨0⟩, ⟨0, 1⟩)]⟩ twoColumns
        [⟨⟨0, 1⟩, smallChunk 9⟩, ⟨⟨1, 0⟩, smallChunk 4⟩] ⟨0⟩ := by
  have h9 : bls12381.toBytes 9 = some (smallChunk 9) := rfl
  refine @reconstructAppExtrinsics_columns bls12381 Runtime.plain Runtime.plain scaleAppData _ _ _ ⟨0, 1⟩ rfl _ _ _ _
    (reconstructAvailable_twoColumns ⟨by decide, by decide⟩ rfl rfl rfl)
    (reconstructAvailable_twoColumns ⟨by decide, by decide⟩ rfl (entriesOf_twoColumns two_pos h9 rfl) rfl) ?_
  intro cell hlo hhi c
  obtain rfl : cell = 0 := Nat.lt_one_iff.mp hhi
  exact Iff.rfl

/-! ### A block, application by application -/

/-- The data of one application is decoded from its range. -/
theorem reconstructAppExtrinsics_eq_ok_iff {A : Ark} {R : Runtime} {K : Codec AppData} {index : DataLookup}
    {dimensions : Dimensions} {cells : List DataCell} {appId : AppId} {xs : AppData} :
    reconstructAppExtrinsics A R K index dimensions cells appId = .ok xs ↔
      ∃ data, reconstructAvailable A R dimensions cells = .ok data ∧
        ∃ range, index.projectedRangeOf appId (UInt32.ofNat chunkSize) = some range ∧
          unflattenRange K data (appId, range) = .ok (appId, xs) := by
  simp only [reconstructAppExtrinsics, Except.bind_eq_ok, Run.okOr_eq_ok, Run.mapErr_eq_ok, Except.pure_eq_ok,
    Except.ok.injEq]
  refine exists_congr fun data => and_congr_right fun hdata => exists_congr fun range => and_congr_right fun _ => ?_
  obtain ⟨-, scalars, chunks, -, hchunks, rfl⟩ := reconstructAvailable_eq_ok_iff.mp hdata
  rw [(chunksOf_cellBytes hchunks).unflattenPaddedData_singleton]
  constructor
  · rintro ⟨groups, hgroups, rfl⟩
    cases hrun : unflattenRange K chunks.flatten (appId, range) with
    | error e =>
      rw [hrun] at hgroups
      cases hgroups
    | ok group =>
      obtain ⟨id, xs⟩ := group
      obtain rfl : id = appId := fst_of_unflattenRange hrun
      rw [hrun] at hgroups
      cases hgroups
      simp
  · intro hrun
    rw [hrun]
    exact ⟨[(appId, xs)], rfl, by simp⟩

/-- Whole chunks are decoded range by range. -/
theorem exists_unflattenPaddedData_iff {K : Codec AppData} {index : DataLookup} {data : List UInt8}
    (hwhole : data.length % chunkSize = 0) {v : List (AppId × AppData)} :
    (∃ ranges, index.projectedRanges (UInt32.ofNat chunkSize) = .ok ranges ∧
      unflattenPaddedData K ranges data = .ok v) ↔
    List.Forall₂ (fun entry group => ∃ range, entry.2.project (UInt32.ofNat chunkSize) = some range ∧
      unflattenRange K data (entry.1, range) = .ok group) index.index v := by
  simp only [unflattenPaddedData, decide_eq_true hwhole, Run.ensure_true, Except.ok_bind,
    DataLookup.projectedRanges, Except.exists_mapM_mapM_iff, Except.bind_eq_ok, Run.okOr_eq_ok, Except.pure_eq_ok,
    Except.ok.injEq]
  constructor
  · intro h
    refine h.imp fun entry group => ?_
    rintro ⟨_, ⟨range, hrange, rfl⟩, hgroup⟩
    exact ⟨range, hrange, hgroup⟩
  · intro h
    refine h.imp fun entry group => ?_
    rintro ⟨range, hrange, hgroup⟩
    exact ⟨_, ⟨range, hrange, rfl⟩, hgroup⟩

/-- A block is decoded range by range. -/
theorem reconstructExtrinsics_eq_ok_iff {A : Ark} {R : Runtime} {K : Codec AppData} {index : DataLookup}
    {dimensions : Dimensions} {cells : List DataCell} {v : List (AppId × AppData)} :
    reconstructExtrinsics A R K index dimensions cells = .ok v ↔
      ∃ data, reconstructAvailable A R dimensions cells = .ok data ∧
        List.Forall₂ (fun entry group => ∃ range, entry.2.project (UInt32.ofNat chunkSize) = some range ∧
          unflattenRange K data (entry.1, range) = .ok group) index.index v := by
  simp only [reconstructExtrinsics, Except.bind_eq_ok, Run.mapErr_eq_ok]
  refine exists_congr fun data => and_congr_right fun hdata => ?_
  have hwhole : data.length % chunkSize = 0 := by rw [length_of_reconstructAvailable hdata, Nat.mul_mod_left]
  exact exists_unflattenPaddedData_iff hwhole

/-- What a block's traversal finds for an entry, the call for its id finds. -/
theorem exists_unflattenRange_iff {A : Ark} {R : Runtime} {K : Codec AppData} {index : DataLookup}
    (hids : (index.index.map Prod.fst).Nodup) {dimensions : Dimensions} {cells : List DataCell} {data : List UInt8}
    (hdata : reconstructAvailable A R dimensions cells = .ok data) {entry : AppId × DataLookupRange}
    (hentry : entry ∈ index.index) {group : AppId × AppData} :
    (∃ range, entry.2.project (UInt32.ofNat chunkSize) = some range ∧
      unflattenRange K data (entry.1, range) = .ok group) ↔
    group.1 = entry.1 ∧ reconstructAppExtrinsics A R K index dimensions cells entry.1 = .ok group.2 := by
  have hrange : index.rangeOf entry.1 = some entry.2 := (DataLookup.rangeOf_eq_some hids).mpr hentry
  rw [reconstructAppExtrinsics_eq_ok_iff, DataLookup.projectedRangeOf, hrange, Option.bind_some]
  constructor
  · rintro ⟨range, hproject, hrun⟩
    have hfst : group.1 = entry.1 := fst_of_unflattenRange hrun
    exact ⟨hfst, data, hdata, range, hproject, by rw [hrun, ← hfst]⟩
  · rintro ⟨hfst, data', hdata', range, hproject, hrun⟩
    rw [hdata, Except.ok.injEq] at hdata'
    exact ⟨range, hproject, by rw [hdata', hrun, ← hfst]⟩

/-- **A block is the list of its applications**: with distinct ids, all of it is decoded exactly when the data of
each application is, and then it pairs each id with that data. -/
theorem reconstructExtrinsics_by_app (A : Ark) (R R' : Runtime) (K : Codec AppData) {index : DataLookup}
    (hids : (index.index.map Prod.fst).Nodup) (dimensions : Dimensions) (cells : List DataCell) :
    ((∃ v, reconstructExtrinsics A R K index dimensions cells = .ok v) ↔
      (∃ data, reconstructAvailable A R dimensions cells = .ok data) ∧
        ∀ id ∈ index.index.map Prod.fst, ∃ xs, reconstructAppExtrinsics A R' K index dimensions cells id = .ok xs) ∧
    ∀ v, reconstructExtrinsics A R K index dimensions cells = .ok v →
      v.map Prod.fst = index.index.map Prod.fst ∧
        ∀ p ∈ v, reconstructAppExtrinsics A R' K index dimensions cells p.1 = .ok p.2 := by
  simp only [reconstructExtrinsics_eq_ok_iff, reconstructAvailable_runtime A R R']
  refine ⟨⟨?_, ?_⟩, ?_⟩
  · rintro ⟨v, data, hdata, hv⟩
    refine ⟨⟨data, hdata⟩, fun id hid => ?_⟩
    obtain ⟨entry, hentry, rfl⟩ := List.mem_map.mp hid
    obtain ⟨group, -, hgroup⟩ := Except.exists_of_mem_forall₂ hv.flip hentry
    exact ⟨group.2, ((exists_unflattenRange_iff hids hdata hentry).mp hgroup).2⟩
  · rintro ⟨⟨data, hdata⟩, hall⟩
    have hgroups : ∀ entry ∈ index.index, ∃ group, ∃ range,
        entry.2.project (UInt32.ofNat chunkSize) = some range ∧
          unflattenRange K data (entry.1, range) = .ok group := by
      intro entry hentry
      obtain ⟨xs, hxs⟩ := hall entry.1 (List.mem_map_of_mem hentry)
      exact ⟨(entry.1, xs), (exists_unflattenRange_iff hids hdata hentry).mpr ⟨rfl, hxs⟩⟩
    obtain ⟨v, hv⟩ := Except.exists_forall₂ hgroups
    exact ⟨v, data, hdata, hv⟩
  · rintro v ⟨data, hdata, hv⟩
    have hfst : List.Forall₂ (fun group entry => group.1 = entry.1) v index.index := by
      refine (hv.imp fun entry group hgroup => ?_).flip
      obtain ⟨range, -, hrun⟩ := hgroup
      exact fst_of_unflattenRange hrun
    constructor
    · rwa [← List.forall₂_eq_eq_eq, List.forall₂_map_left_iff, List.forall₂_map_right_iff]
    · intro p hp
      obtain ⟨entry, hentry, hgroup⟩ := Except.exists_of_mem_forall₂ hv hp
      obtain ⟨hp, hrun⟩ := (exists_unflattenRange_iff hids hdata hentry).mp hgroup
      rw [hp, hrun]

theorem reconstructExtrinsics_by_app_one :
    reconstructAppExtrinsics bls12381 Runtime.plain scaleAppData ⟨[(⟨0⟩, ⟨0, 1⟩)]⟩ ⟨⟨1, by decide⟩, ⟨1, by decide⟩⟩
      [⟨⟨1, 0⟩, smallChunk 4⟩] ⟨0⟩ = .ok [[]] := by
  have hblock := @reconstructExtrinsics_by_app bls12381 Runtime.plain Runtime.plain scaleAppData
    ⟨[(⟨0⟩, ⟨0, 1⟩)]⟩ (by decide) ⟨⟨1, by decide⟩, ⟨1, by decide⟩⟩ [⟨⟨1, 0⟩, smallChunk 4⟩]
  exact (hblock.2 _ (reconstructExtrinsics_one_cell ⟨0⟩)).2 (⟨0⟩, [[]]) (List.mem_singleton.mpr rfl)

end AvailCore
