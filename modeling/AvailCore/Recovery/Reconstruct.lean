import AvailCore.Core.CompactDataLookup
import AvailCore.Recovery.Unflatten
import Std.Data.HashMap.Lemmas

/-!
# Reconstruction of a block from its cells

`map_cells`, `reconstruct_available` and `reconstruct_extrinsics` of
`kate/recovery/src/com.rs`: the cells are sorted into columns, each column with enough
cells is reconstructed, the scalars are read row by row, and the extrinsics are decoded
from their bytes.

## The model

The hash maps are Lean's, whose order of traversal is not Rust's: the values of a
column come in an order that `Runtime` leaves open.

## What is proved

`mapCells` succeeds on cells inside the matrix in distinct positions, and holds them
(`mapCells_eq_ok`, `hold_of_mapCells`, `Columns.Hold`). The result does not depend on
the order of traversal (`reconstructAvailable_runtime`). From half of each column of an
extended matrix its bytes come back (`reconstructAvailable_extended`). With the lookup
that comes back from the compact form the result is the same exactly when that lookup
is (`reconstructExtrinsics_decoded_iff`).
-/

namespace AvailCore

/-! ### Cells by column -/

/-- `HashMap<u16, HashMap<u32, DataCell>>` -/
abbrev Columns : Type := Std.HashMap ℕ (Std.HashMap ℕ DataCell)

/-- The body of the loop of `map_cells`. -/
def insertCell (dimensions : Dimensions) (result : Columns) (cell : DataCell) :
    Run ReconstructionError Columns := do
  Run.ensure (dimensions.extendedContains cell.position) (.invalidCell cell.position)
  let cells := result.getD cell.position.col ∅
  Run.ensure (!cells.contains cell.position.row) .duplicateCellFound
  return result.insert cell.position.col (cells.insert cell.position.row cell)

/-- `map_cells` -/
def mapCells (dimensions : Dimensions) (cells : List DataCell) : Run ReconstructionError Columns :=
  cells.foldlM (insertCell dimensions) ∅

/-- The cells of a column. -/
def inColumn (cells : List DataCell) (col : ℕ) : List DataCell := cells.filter fun c => c.position.col = col

/-- The cells of a column, counted by their positions. -/
theorem length_inColumn (cells : List DataCell) (col : ℕ) :
    (inColumn cells col).length = (cells.map DataCell.position).countP fun p => p.col = col := by
  rw [inColumn, ← List.countP_eq_length_filter, List.countP_map]
  rfl

/-- A cell in a row that is free is one more entry. -/
theorem toList_insert_perm_cons {m : Std.HashMap ℕ DataCell} {row : ℕ} (hnew : m.contains row = false)
    (cell : DataCell) : (m.insert row cell).toList.Perm ((row, cell) :: m.toList) := by
  have hfilter : m.toList.filter (fun x => ¬(row == x.1) = true) = m.toList := by
    rw [List.filter_eq_self]
    intro x hx
    have hget : m[x.1]? = some x.2 := Std.HashMap.mem_toList_iff_getElem?_eq_some.mp hx
    refine decide_eq_true fun heq => ?_
    rw [Std.HashMap.contains_eq_isSome_getElem?, beq_iff_eq.mp heq, hget] at hnew
    cases hnew
  have hperm := @Std.HashMap.toList_insert_perm _ _ _ _ m _ _ row cell
  rwa [hfilter] at hperm

/-- The maps hold these cells: each column its own, by row, and no column is empty. -/
structure Columns.Hold (columns : Columns) (cells : List DataCell) : Prop where
  perm : ∀ col, (columns.getD col ∅).toList.Perm ((inColumn cells col).map fun c => (c.position.row, c))
  nonempty : ∀ col ∈ columns, (columns.getD col ∅).toList ≠ []

namespace Columns.Hold

variable {columns : Columns} {cells : List DataCell} (h : columns.Hold cells)
include h

/-- A row is there when a cell with its position is. -/
theorem contains_iff (col row : ℕ) :
    (columns.getD col ∅).contains row = true ↔ (⟨row, col⟩ : Position) ∈ cells.map DataCell.position := by
  rw [Std.HashMap.contains_eq_isSome_getElem?, Option.isSome_iff_exists, List.mem_map]
  constructor
  · intro hrow
    obtain ⟨c, hc⟩ := hrow
    have hmem := (h.perm col).subset (Std.HashMap.mem_toList_iff_getElem?_eq_some.mpr hc)
    obtain ⟨c', hc', heq⟩ := List.mem_map.mp hmem
    obtain ⟨hc', hcol⟩ := List.mem_filter.mp hc'
    rw [Prod.mk.injEq] at heq
    exact ⟨c', hc', by rw [← heq.1, ← of_decide_eq_true hcol]⟩
  · intro hcell
    obtain ⟨c, hc, hpos⟩ := hcell
    have hcol : c ∈ inColumn cells col := List.mem_filter.mpr ⟨hc, by simp [hpos]⟩
    have hmem := (h.perm col).symm.subset (List.mem_map_of_mem hcol)
    rw [hpos, Std.HashMap.mem_toList_iff_getElem?_eq_some] at hmem
    exact ⟨c, hmem⟩

/-- One more cell, in a position that is free. -/
theorem insert {cell : DataCell} (hfree : cell.position ∉ cells.map DataCell.position) :
    Hold (columns.insert cell.position.col
      ((columns.getD cell.position.col ∅).insert cell.position.row cell)) (cells ++ [cell]) := by
  have hnew : (columns.getD cell.position.col ∅).contains cell.position.row = false := by
    rw [← Bool.not_eq_true, h.contains_iff]
    exact hfree
  constructor
  · intro col
    rw [Std.HashMap.getD_insert, inColumn, List.filter_append, List.map_append]
    by_cases hcol : cell.position.col = col
    · subst hcol
      rw [if_pos (beq_iff_eq.mpr rfl), List.filter_cons_of_pos (by simp), List.filter_nil]
      apply (toList_insert_perm_cons hnew cell).trans
      exact ((h.perm _).cons _).trans (List.perm_append_singleton _ _).symm
    · rw [if_neg (by simpa using hcol), List.filter_cons_of_neg (by simpa using hcol), List.filter_nil,
        List.map_nil, List.append_nil]
      exact h.perm col
  · intro col hmem
    rw [Std.HashMap.getD_insert]
    by_cases hcol : cell.position.col = col
    · subst hcol
      rw [if_pos (beq_iff_eq.mpr rfl)]
      intro hnil
      have hlen := Std.HashMap.toList_insert_perm.symm.trans (List.Perm.of_eq hnil)
      exact List.cons_ne_nil _ _ hlen.eq_nil
    · rw [if_neg (by simpa using hcol)]
      apply h.nonempty col
      rw [Std.HashMap.mem_insert] at hmem
      rcases hmem with heq | hmem
      · exact absurd (beq_iff_eq.mp heq) hcol
      · exact hmem

end Columns.Hold

/-- **What a turn does**, with maps of the cells before. -/
theorem insertCell_eq {dimensions : Dimensions} {before : List DataCell} {columns : Columns}
    (hhold : columns.Hold before) (cell : DataCell) : insertCell dimensions columns cell =
      if cell.position.row < dimensions.extendedRows ∧ cell.position.col < dimensions.width then
        if cell.position ∈ before.map DataCell.position then Run.fail .duplicateCellFound
        else .ok (columns.insert cell.position.col
          ((columns.getD cell.position.col ∅).insert cell.position.row cell))
      else Run.fail (.invalidCell cell.position) := by
  have hfound := hhold.contains_iff cell.position.col cell.position.row
  unfold insertCell
  split_ifs with hin hmem
  · simp only [dimensions.extendedContains_iff.mpr hin, hfound.mpr hmem, Run.ensure_true, Except.ok_bind]
    rfl
  · simp only [dimensions.extendedContains_iff.mpr hin, Bool.eq_false_of_not_eq_true (mt hfound.mp hmem),
      Run.ensure_true, Except.ok_bind]
    rfl
  · rw [Bool.eq_false_of_not_eq_true (mt dimensions.extendedContains_iff.mp hin)]
    rfl

/-- It succeeds on a cell of the matrix in a position that is free. -/
theorem insertCell_eq_ok_iff {dimensions : Dimensions} {before : List DataCell} {columns columns' : Columns}
    (hhold : columns.Hold before) {cell : DataCell} : insertCell dimensions columns cell = .ok columns' ↔
      (cell.position.row < dimensions.extendedRows ∧ cell.position.col < dimensions.width) ∧
        cell.position ∉ before.map DataCell.position ∧
        columns' = columns.insert cell.position.col
          ((columns.getD cell.position.col ∅).insert cell.position.row cell) := by
  rw [insertCell_eq hhold]
  split_ifs with hin hmem
  · refine iff_of_false (fun h => by cases h) ?_
    rintro ⟨-, hfree, -⟩
    exact hfree hmem
  · rw [Except.ok.injEq, and_iff_right hin, and_iff_right hmem, eq_comm]
  · refine iff_of_false (fun h => by cases h) ?_
    rintro ⟨hin', -⟩
    exact hin hin'

/-- **`map_cells` succeeds on cells of the matrix in distinct positions, and then holds them.** -/
theorem mapCells_eq_ok {dimensions : Dimensions} {cells : List DataCell}
    (hin : ∀ c ∈ cells, dimensions.extendedContains c.position = true)
    (hnodup : (cells.map DataCell.position).Nodup) :
    ∃ columns, mapCells dimensions cells = .ok columns ∧ columns.Hold cells := by
  induction cells using List.reverseRecOn with
  | nil => exact ⟨∅, rfl, ⟨by simp [inColumn], by simp⟩⟩
  | append_singleton cells cell ih =>
    rw [List.map_append, List.nodup_append] at hnodup
    obtain ⟨columns, hrun, hhold⟩ := ih (fun c hc => hin c (List.mem_append_left _ hc)) hnodup.1
    have hfree : cell.position ∉ cells.map DataCell.position := fun hmem =>
      hnodup.2.2 _ hmem cell.position (by simp) rfl
    refine ⟨_, ?_, hhold.insert hfree⟩
    have hcell := dimensions.extendedContains_iff.mp (hin cell (by simp))
    rw [mapCells] at hrun ⊢
    rw [List.foldlM_append, hrun, Except.ok_bind, List.foldlM_cons,
      (insertCell_eq_ok_iff hhold).mpr ⟨hcell, hfree, rfl⟩]
    rfl

/-- Cells that are mapped are of the matrix, in distinct positions, and held. -/
theorem hold_of_mapCells {dimensions : Dimensions} {cells : List DataCell} {columns : Columns}
    (h : mapCells dimensions cells = .ok columns) :
    columns.Hold cells ∧ (∀ c ∈ cells, dimensions.extendedContains c.position = true) ∧
      (cells.map DataCell.position).Nodup := by
  induction cells using List.reverseRecOn generalizing columns with
  | nil =>
    cases h
    exact ⟨⟨by simp [inColumn], by simp⟩, by simp, List.nodup_nil⟩
  | append_singleton cells cell ih =>
    rw [mapCells, List.foldlM_append, Except.bind_eq_ok] at h
    obtain ⟨columns', hrun, hstep⟩ := h
    obtain ⟨hhold, hin, hnodup⟩ := ih hrun
    simp only [List.foldlM_cons, List.foldlM_nil, bind_pure] at hstep
    obtain ⟨hcell, hfree, rfl⟩ := (insertCell_eq_ok_iff hhold).mp hstep
    refine ⟨hhold.insert hfree, ?_, ?_⟩
    · intro c hc
      rcases List.mem_append.mp hc with hc | hc
      · exact hin c hc
      · obtain rfl := List.mem_singleton.mp hc
        exact dimensions.extendedContains_iff.mpr hcell
    · rw [List.map_append, List.nodup_append]
      refine ⟨hnodup, List.nodup_singleton _, ?_⟩
      intro p hp q hq heq
      obtain rfl := List.mem_singleton.mp hq
      exact hfree (heq ▸ hp)

namespace Columns.Hold

variable {columns : Columns} {cells : List DataCell} (h : columns.Hold cells)
include h

/-- A column that is there has its cells, in some order. -/
theorem values_perm {col : ℕ} {column : Std.HashMap ℕ DataCell} (hcol : columns[col]? = some column) :
    (column.toList.map Prod.snd).Perm (inColumn cells col) := by
  have hperm := (h.perm col).map Prod.snd
  rw [Std.HashMap.getD_eq_getD_getElem?, hcol, Option.getD_some, List.map_map] at hperm
  simpa [Function.comp_def] using hperm

/-- A column is there when it has cells. -/
theorem getElem?_eq_none_iff (col : ℕ) : columns[col]? = none ↔ inColumn cells col = [] := by
  constructor
  · intro hnone
    have hperm := h.perm col
    rw [Std.HashMap.getD_eq_getD_getElem?, hnone, Option.getD_none, Std.HashMap.toList_empty] at hperm
    exact List.map_eq_nil_iff.mp hperm.symm.eq_nil
  · intro hnil
    by_contra hsome
    have hmem : col ∈ columns := by
      rw [Std.HashMap.mem_iff_isSome_getElem?, Option.isSome_iff_ne_none]
      exact hsome
    have hperm := h.perm col
    rw [hnil, List.map_nil] at hperm
    exact h.nonempty col hmem hperm.eq_nil

end Columns.Hold

/-! ### The bytes of the matrix -/

/-- The scalars of a column: those reconstructed, or none when there is no cell. -/
def columnScalars (A : Ark) (R : Runtime) (dimensions : Dimensions) (columns : Columns) (col : ℕ) :
    Run ReconstructionError (List (Option ArkScalar)) :=
  match columns[col]? with
  | none => return List.replicate dimensions.height none
  | some columnCells => do
    Run.ensure (dimensions.height ≤ columnCells.size) (.invalidColumn col)
    let cells := R.values col (columnCells.toList.map Prod.snd)
    let scalars ← reconstructColumn A R dimensions.extendedRows cells
    return scalars.map some

/-- The bytes of the scalar of a row and a column, zeros when there is none. -/
def cellBytes (A : Ark) (scalars : List (List (Option ArkScalar))) (position : ℕ × ℕ) :
    Run ReconstructionError (List UInt8) :=
  match (scalars[position.2]?.bind fun col => col[position.1]?).join with
  | some scalar => do
    let bytes ← Run.okOr (.invalidColumn position.2) (A.toBytes scalar)
    return bytes.val
  | none => return List.replicate chunkSize 0

/-- `reconstruct_available` -/
def reconstructAvailable (A : Ark) (R : Runtime) (dimensions : Dimensions) (cells : List DataCell) :
    Run ReconstructionError (List UInt8) := do
  let columns ← mapCells dimensions cells
  let scalars ← (List.range dimensions.width).mapM (columnScalars A R dimensions columns)
  let result ← dimensions.iterData.mapM (cellBytes A scalars)
  return result.flatten

/-- `reconstruct_extrinsics` -/
def reconstructExtrinsics (A : Ark) (R : Runtime) (K : Codec AppData) (lookup : DataLookup)
    (dimensions : Dimensions) (cells : List DataCell) : Run ReconstructionError (List (AppId × AppData)) := do
  let data ← reconstructAvailable A R dimensions cells
  let ranges ← (lookup.projectedRanges (UInt32.ofNat chunkSize)).mapErr .dataLookup
  (unflattenPaddedData K ranges data).mapErr .dataDecodingError

/-! ### The order of traversal -/

/-- In a column, distinct positions are distinct rows. -/
theorem nodup_rows_inColumn {cells : List DataCell} (h : (cells.map DataCell.position).Nodup) (col : ℕ) :
    ((inColumn cells col).map fun c => c.position.row).Nodup := by
  have hsub : ((inColumn cells col).map DataCell.position).Nodup :=
    h.sublist (List.filter_sublist.map _)
  have hpos : (inColumn cells col).map DataCell.position =
      ((inColumn cells col).map fun c => c.position.row).map fun row => ⟨row, col⟩ := by
    rw [List.map_map]
    refine List.map_congr_left fun c hc => ?_
    rw [Function.comp, ← of_decide_eq_true (List.mem_filter.mp hc).2]
  rw [hpos] at hsub
  exact hsub.of_map _

theorem columnScalars_runtime (A : Ark) (R R' : Runtime) (dimensions : Dimensions) {columns : Columns}
    {cells : List DataCell} (h : columns.Hold cells) (hnodup : (cells.map DataCell.position).Nodup) (col : ℕ) :
    columnScalars A R dimensions columns col = columnScalars A R' dimensions columns col := by
  unfold columnScalars
  cases hcol : columns[col]? with
  | none => rfl
  | some column =>
    have hvalues := h.values_perm hcol
    have hperm := (R.values_perm col (column.toList.map Prod.snd)).trans
      (R'.values_perm col (column.toList.map Prod.snd)).symm
    have hrows : ((R.values col (column.toList.map Prod.snd)).map fun c => c.position.row).Nodup :=
      (((R.values_perm col _).trans hvalues).map _).nodup_iff.mpr (nodup_rows_inColumn hnodup col)
    simp only [reconstructColumn_perm A R R' _ hperm hrows]

/-- **The bytes do not depend on the order of traversal**, nor on the capacity of vectors. -/
theorem reconstructAvailable_runtime (A : Ark) (R R' : Runtime) (dimensions : Dimensions)
    (cells : List DataCell) :
    reconstructAvailable A R dimensions cells = reconstructAvailable A R' dimensions cells := by
  rw [reconstructAvailable, reconstructAvailable]
  cases hcolumns : mapCells dimensions cells with
  | error e => rfl
  | ok columns =>
    obtain ⟨hhold, -, hnodup⟩ := hold_of_mapCells hcolumns
    simp only [Except.ok_bind, Except.mapM_congr fun col _ => columnScalars_runtime A R R' dimensions hhold hnodup col]

theorem reconstructExtrinsics_runtime (A : Ark) (R R' : Runtime) (K : Codec AppData) (lookup : DataLookup)
    (dimensions : Dimensions) (cells : List DataCell) :
    reconstructExtrinsics A R K lookup dimensions cells = reconstructExtrinsics A R' K lookup dimensions cells := by
  rw [reconstructExtrinsics, reconstructExtrinsics, reconstructAvailable_runtime A R R']

/-! ### Cells of an extended matrix -/

/-- Cells of a matrix whose extended columns hold the given scalars, in distinct positions, and
as many of each column as it had before extension. -/
structure HalfOf (A : Ark) (dimensions : Dimensions) (extended : ℕ → List ArkScalar) (cells : List DataCell) :
    Prop where
  contained : ∀ c ∈ cells, dimensions.extendedContains c.position = true
  nodup : (cells.map DataCell.position).Nodup
  half : ∀ col < dimensions.width, dimensions.height ≤ (inColumn cells col).length
  value : ∀ c ∈ cells, ∃ s, (extended c.position.col)[c.position.row]? = some s ∧ A.toBytes s = some c.data

theorem HalfOf.cellsOf {A : Ark} {dimensions : Dimensions} {extended : ℕ → List ArkScalar} {cells : List DataCell}
    (h : HalfOf A dimensions extended cells) (col : ℕ) : CellsOf A (extended col) (inColumn cells col) := by
  have hcol : ∀ c ∈ inColumn cells col, c ∈ cells ∧ c.position.col = col := by
    intro c hc
    obtain ⟨hmem, hcol⟩ := List.mem_filter.mp hc
    exact ⟨hmem, of_decide_eq_true hcol⟩
  refine ⟨nodup_rows_inColumn h.nodup col, ?_, ?_⟩
  · intro c hc c' hc'
    rw [(hcol c hc).2, (hcol c' hc').2]
  · intro c hc
    have hvalue := h.value c (hcol c hc).1
    rwa [(hcol c hc).2] at hvalue

section Extended

variable {A : Ark} {k : ℕ} {short d : EvaluationDomain} (hdom : ColumnDomains A k short d)
  {dimensions : Dimensions} (hheight : dimensions.height = 2 ^ k) {column : ℕ → List ArkScalar}
  (hlen : ∀ col < dimensions.width, (column col).length = 2 ^ k) {cells : List DataCell}
  (hcells : HalfOf A dimensions (fun col => A.fft d (A.ifft short (column col))) cells)
include hdom hheight hlen hcells

/-- Each column is reconstructed. -/
theorem columnScalars_extended (R : Runtime) {columns : Columns} (hhold : columns.Hold cells) {col : ℕ}
    (hcol : col < dimensions.width) :
    columnScalars A R dimensions columns col = .ok ((column col).map some) := by
  have hhalf := hcells.half col hcol
  have hpos := dimensions.height_pos
  obtain ⟨cellMap, hmap⟩ : ∃ cellMap, columns[col]? = some cellMap := by
    rw [← Option.ne_none_iff_exists', Ne, hhold.getElem?_eq_none_iff]
    exact List.ne_nil_of_length_pos (by omega)
  have hperm := (R.values_perm col (cellMap.toList.map Prod.snd)).trans (hhold.values_perm hmap)
  have hsize : cellMap.size = (inColumn cells col).length := by
    rw [← (hhold.values_perm hmap).length_eq, List.length_map, Std.HashMap.length_toList]
  have hrows := hcells.cellsOf col
  have hrun := hdom.reconstructColumn_fft_ifft R (hlen col hcol) hrows (hheight ▸ hhalf)
  have hextended : dimensions.extendedRows = 2 * 2 ^ k := by
    rw [Dimensions.extendedRows, ← hheight, Nat.mul_comm]
    rfl
  have hsame := reconstructColumn_perm A R R (2 * 2 ^ k) hperm.symm hrows.nodup
  simp only [columnScalars, hmap, hsize, decide_eq_true hhalf, Run.ensure_true, Except.ok_bind, hextended,
    ← hsame, hrun, Except.pure_eq_ok]

/-- **The matrix is reconstructed**: its bytes are those of the scalars, row by row. -/
theorem reconstructAvailable_extended (R : Runtime) {bytes : ℕ × ℕ → List UInt8}
    (hbytes : ∀ p ∈ dimensions.iterData,
      ∃ s b, (column p.2)[p.1]? = some s ∧ A.toBytes s = some b ∧ b.val = bytes p) :
    reconstructAvailable A R dimensions cells = .ok (dimensions.iterData.map bytes).flatten := by
  obtain ⟨columns, hcolumns, hhold⟩ := mapCells_eq_ok hcells.contained hcells.nodup
  have hscalars : (List.range dimensions.width).mapM (columnScalars A R dimensions columns) =
      .ok ((List.range dimensions.width).map fun col => (column col).map some) :=
    Except.mapM_eq_map fun col hcol =>
      columnScalars_extended hdom hheight hlen hcells R hhold (List.mem_range.mp hcol)
  have hresult : dimensions.iterData.mapM (cellBytes A ((List.range dimensions.width).map fun col =>
      (column col).map some)) = .ok (dimensions.iterData.map bytes) := by
    refine Except.mapM_eq_map fun p hp => ?_
    obtain ⟨s, b, hs, hb, hval⟩ := hbytes p hp
    have hcol : p.2 < dimensions.width := (dimensions.mem_iterData.mp hp).2
    simp [cellBytes, hcol, hs, hb, hval]
  simp only [reconstructAvailable, hcolumns, hscalars, hresult, Except.ok_bind, Except.pure_eq_ok]

end Extended

/-! ### With the lookup a light client has -/

/-- **An empty range in front of the others is fatal**: nothing is decoded from it. -/
theorem reconstructExtrinsics_phantom {A : Ark} {R : Runtime} {K : Codec AppData} (hnil : K.decode [] = none)
    {l : DataLookup} {dimensions : Dimensions} {cells : List DataCell} {v : List (AppId × AppData)}
    (h : reconstructExtrinsics A R K l dimensions cells = .ok v) (id : AppId) :
    reconstructExtrinsics A R K ⟨(id, ⟨0, 0⟩) :: l.index⟩ dimensions cells =
      Run.fail (.dataDecodingError .codec) := by
  simp only [reconstructExtrinsics, Except.bind_eq_ok, Run.mapErr_eq_ok] at h
  obtain ⟨data, hdata, ranges, hranges, hdecode⟩ := h
  have hproject : (DataLookup.mk ((id, ⟨0, 0⟩) :: l.index)).projectedRanges (UInt32.ofNat chunkSize) =
      .ok ((id, ⟨0, 0⟩) :: ranges) := by
    rw [DataLookup.projectedRanges] at hranges ⊢
    rw [List.mapM_cons, hranges]
    rfl
  simp only [unflattenPaddedData, Except.bind_eq_ok, Run.ensure_eq_ok] at hdecode
  obtain ⟨_, hlen, -⟩ := hdecode
  simp only [reconstructExtrinsics, hdata, hproject, Except.ok_bind, Run.mapErr_ok, unflattenPaddedData, hlen,
    Run.ensure_true, List.mapM_cons, unflattenRange_empty hnil]
  rfl

/-- **A light client decodes the block exactly when the lookup is empty or its first id is 0**: else the
lookup it has from the header starts with an empty range. -/
theorem reconstructExtrinsics_decoded_iff (A : Ark) (R : Runtime) (K : Codec CompactDataLookup)
    (hK : ∀ c : CompactDataLookup, c.index.length < 2 ^ 32 → (K.encode c).isSome) (Kd : Codec AppData)
    (hnil : Kd.decode [] = none) {items : List (AppId × ℕ)} {l : DataLookup}
    (hl : DataLookup.fromIdAndLenIter items = .ok l) {dimensions : Dimensions} {cells : List DataCell}
    {v : List (AppId × AppData)} (h : reconstructExtrinsics A R Kd l dimensions cells = .ok v) :
    (∃ bs r, l.encode K = some bs ∧ DataLookup.decode K bs = .ok (r, []) ∧
      ∀ R', reconstructExtrinsics A R' Kd r dimensions cells = .ok v) ↔ ∀ x ∈ items.head?, x.1 = ⟨0⟩ := by
  obtain ⟨L, rfl, rfl⟩ := fromIdAndLenIter_eq_ok_iff.mp hl
  -- the ranges were projected, so the size is not the error marker
  have hmax : total L.items ≠ 2 ^ 32 - 1 := by
    have hrun := h
    simp only [reconstructExtrinsics, Except.bind_eq_ok, Run.mapErr_eq_ok] at hrun
    obtain ⟨data, -, ranges, hranges, -⟩ := hrun
    have hlt : total L.items * 32 < 2 ^ 32 := ((projectedRanges_eq_ok_iff L).mp hranges).1
    omega
  obtain ⟨hback, bs, hbs, hdec⟩ := comesBackAs (L.tryFrom_fromDataLookup hmax)
    (hK _ (lt_of_le_of_lt L.length_fromDataLookup_le L.total_lt))
  constructor
  · intro hclient
    obtain ⟨bs', r, hbs', hdec', hrun⟩ := hclient
    by_contra hfirst
    rw [hbs] at hbs'
    cases hbs'
    rw [hdec, if_neg hfirst] at hdec'
    cases hdec'
    have hfail := hrun R
    rw [reconstructExtrinsics_phantom hnil h] at hfail
    cases hfail
  · intro hfirst
    rw [if_pos hfirst] at hdec
    refine ⟨bs, L.lookup, hbs, hdec, fun R' => ?_⟩
    rw [reconstructExtrinsics_runtime A R' R, h]

/-- A block of one empty extrinsic, in one cell. -/
theorem reconstructExtrinsics_one_cell (id : AppId) :
    reconstructExtrinsics bls12381 Runtime.plain scaleAppData ⟨[(id, ⟨0, 1⟩)]⟩ ⟨⟨1, by decide⟩, ⟨1, by decide⟩⟩
      [⟨⟨1, 0⟩, smallChunk 4⟩] = .ok [(id, [[]])] := by
  have hdom : ColumnDomains bls12381 0 ⟨1, ArkScalar.rootOfUnity 0⟩ ⟨2, ArkScalar.rootOfUnity 1⟩ :=
    ⟨bls12381_newDomain_one, bls12381_newDomain_two⟩
  have hcells : HalfOf bls12381 ⟨⟨1, by decide⟩, ⟨1, by decide⟩⟩ (fun _ => bls12381.fft ⟨2, ArkScalar.rootOfUnity 1⟩
      (bls12381.ifft ⟨1, ArkScalar.rootOfUnity 0⟩ [4])) [⟨⟨1, 0⟩, smallChunk 4⟩] := by
    refine ⟨by decide, by simp, by decide, ?_⟩
    intro c hc
    obtain rfl := List.mem_singleton.mp hc
    exact ⟨4, by rw [bls12381_extend_one]; rfl, rfl⟩
  have hdata : reconstructAvailable bls12381 Runtime.plain ⟨⟨1, by decide⟩, ⟨1, by decide⟩⟩
      [⟨⟨1, 0⟩, smallChunk 4⟩] = .ok (smallChunk 4).val := by
    refine @reconstructAvailable_extended _ 0 _ _ hdom _ rfl _ (fun _ _ => rfl) _ hcells Runtime.plain
      (fun _ => (smallChunk 4).val) fun p hp => ?_
    obtain ⟨hrow, -⟩ := (Dimensions.mem_iterData _).mp hp
    obtain hrow : p.1 = 0 := Nat.lt_one_iff.mp hrow
    exact ⟨4, smallChunk 4, by rw [hrow]; rfl, rfl, rfl⟩
  have hholds : ∀ g ∈ [((id, [[]]), [(smallChunk 4).val])], Holds scaleAppData g.1 g.2 := by
    intro g hg
    obtain rfl := List.mem_singleton.mp hg
    exact ⟨by simp [smallChunk], [4, 0], List.replicate 29 0, rfl, rfl⟩
  have hlt : (1 + 0) * chunkSize < 2 ^ 32 := by decide
  have hdecode := @unflattenPaddedData_eq scaleAppData _ hholds hlt [] (dvd_zero _)
  have hranges : (DataLookup.mk [(id, ⟨0, 1⟩)]).projectedRanges (UInt32.ofNat chunkSize) =
      .ok (byteRanges chunkSize 0 [(id, 1)]) := rfl
  simp only [reconstructExtrinsics, hdata, hranges, Except.ok_bind, Run.mapErr_ok]
  exact congrArg (Run.mapErr _) hdecode

theorem reconstructExtrinsics_decoded_iff_zero : ∃ bs r,
    (DataLookup.mk [(⟨0⟩, ⟨0, 1⟩)]).encode scaleCompact = some bs ∧ DataLookup.decode scaleCompact bs = .ok (r, []) ∧
    ∀ R', reconstructExtrinsics bls12381 R' scaleAppData r ⟨⟨1, by decide⟩, ⟨1, by decide⟩⟩
      [⟨⟨1, 0⟩, smallChunk 4⟩] = .ok [(⟨0⟩, [[]])] :=
  (@reconstructExtrinsics_decoded_iff bls12381 Runtime.plain scaleCompact scaleCompact_encode_isSome scaleAppData
    scaleAppData_decode_nil [(⟨0⟩, 1)] _ (by decide) _ _ _ (reconstructExtrinsics_one_cell ⟨0⟩)).mpr (by decide)

/-- A block whose first id is 1 is decoded with its lookup, and not with the one from the header. -/
theorem reconstructExtrinsics_decoded_fails :
    DataLookup.fromIdAndLenIter [(⟨1⟩, 1)] = .ok ⟨[(⟨1⟩, ⟨0, 1⟩)]⟩ ∧
    reconstructExtrinsics bls12381 Runtime.plain scaleAppData ⟨[(⟨1⟩, ⟨0, 1⟩)]⟩ ⟨⟨1, by decide⟩, ⟨1, by decide⟩⟩
      [⟨⟨1, 0⟩, smallChunk 4⟩] = .ok [(⟨1⟩, [[]])] ∧
    (DataLookup.mk [(⟨1⟩, ⟨0, 1⟩)]).encode scaleCompact = some [4, 4, 4, 0] ∧
    DataLookup.decode scaleCompact [4, 4, 4, 0] = .ok (⟨[(⟨0⟩, ⟨0, 0⟩), (⟨1⟩, ⟨0, 1⟩)]⟩, []) ∧
    reconstructExtrinsics bls12381 Runtime.plain scaleAppData ⟨[(⟨0⟩, ⟨0, 0⟩), (⟨1⟩, ⟨0, 1⟩)]⟩
      ⟨⟨1, by decide⟩, ⟨1, by decide⟩⟩ [⟨⟨1, 0⟩, smallChunk 4⟩] = Run.fail (.dataDecodingError .codec) :=
  ⟨by decide, reconstructExtrinsics_one_cell ⟨1⟩, by decide, by decide,
    reconstructExtrinsics_phantom scaleAppData_decode_nil (reconstructExtrinsics_one_cell ⟨1⟩) ⟨0⟩⟩

end AvailCore
