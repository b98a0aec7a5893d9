import AvailCore.Recovery.AppData

/-!
# The maps of the cells

`map_cells` of `kate/recovery/src/com.rs`, for any list of cells. It inserts a cell before
it looks at the one it replaced: what the maps have lost is of no matter, as they are
dropped then.

## What is proved

A turn of the loop refuses a cell for its position alone (`insertCell_eq_error_iff`), so
that the loop ends with the first cell it refuses, and else with maps that have every cell
of the list once, and nothing else (`mapCells_exact`).
-/

namespace AvailCore

/-! ### One cell -/

/-- The body of the loop as it stands, with `insert` and the value it replaced. -/
def replaceCell (dimensions : Dimensions) (result : Columns) (cell : DataCell) :
    Run ReconstructionError Columns := do
  Run.ensure (dimensions.extendedContains cell.position) (.invalidCell cell.position)
  let cells := result.getD cell.position.col ∅
  let replaced := cells[cell.position.row]?
  let result := result.insert cell.position.col (cells.insert cell.position.row cell)
  Run.ensure replaced.isNone .duplicateCellFound
  return result

/-- Looking first whether there is a cell comes to the same. -/
theorem replaceCell_eq (dimensions : Dimensions) : replaceCell dimensions = insertCell dimensions := by
  funext result cell
  simp only [replaceCell, insertCell, Std.HashMap.contains_eq_isSome_getElem?, Option.not_isSome]

theorem mapCells_eq_replaceCell (dimensions : Dimensions) (cells : List DataCell) :
    mapCells dimensions cells = cells.foldlM (replaceCell dimensions) ∅ := by
  rw [mapCells, replaceCell_eq]

/-- Why a cell is refused that comes after others: it is not of the matrix, or it is in the position of
one of them. -/
def Refuses (dimensions : Dimensions) (before : List DataCell) (cell : DataCell) (e : ReconstructionError) : Prop :=
  (¬ (cell.position.row < dimensions.extendedRows ∧ cell.position.col < dimensions.width) ∧
    e = .invalidCell cell.position) ∨
  (cell.position ∈ before.map DataCell.position ∧ e = .duplicateCellFound)

/-- A turn refuses a cell for its position alone, and at most for one reason. -/
theorem insertCell_eq_error_iff {dimensions : Dimensions} {before : List DataCell} {columns : Columns}
    (hhold : columns.Hold before) (hbefore : Mappable dimensions before) {cell : DataCell}
    {s : Stop ReconstructionError} : insertCell dimensions columns cell = .error s ↔
      ∃ e, s = .err e ∧ Refuses dimensions before cell e := by
  have hinside : cell.position ∈ before.map DataCell.position →
      cell.position.row < dimensions.extendedRows ∧ cell.position.col < dimensions.width := by
    intro hmem
    obtain ⟨c, hc, hpos⟩ := List.mem_map.mp hmem
    exact dimensions.extendedContains_iff.mp (hpos ▸ hbefore.contained c hc)
  rw [insertCell_eq hhold]
  unfold Refuses
  split_ifs with hin hmem
  · constructor
    · rintro ⟨rfl⟩
      exact ⟨_, rfl, Or.inr ⟨hmem, rfl⟩⟩
    · rintro ⟨e, rfl, ⟨hout, -⟩ | ⟨-, rfl⟩⟩
      · exact absurd hin hout
      · rfl
  · refine iff_of_false (fun h => by cases h) ?_
    rintro ⟨e, -, ⟨hout, -⟩ | ⟨hmem', -⟩⟩
    · exact hout hin
    · exact hmem hmem'
  · constructor
    · rintro ⟨rfl⟩
      exact ⟨_, rfl, Or.inl ⟨hin, rfl⟩⟩
    · rintro ⟨e, rfl, ⟨-, rfl⟩ | ⟨hmem, -⟩⟩
      · rfl
      · exact absurd (hinside hmem) hin

/-- The first cell of a list that is refused, and why. -/
def FirstRefused (dimensions : Dimensions) (cells : List DataCell) (e : ReconstructionError) : Prop :=
  ∃ before cell after, cells = before ++ cell :: after ∧ Mappable dimensions before ∧
    Refuses dimensions before cell e

/-- **The loop ends with the first cell that is refused.** -/
theorem mapCells_eq_error_iff {dimensions : Dimensions} {cells : List DataCell} {s : Stop ReconstructionError} :
    mapCells dimensions cells = .error s ↔ ∃ e, s = .err e ∧ FirstRefused dimensions cells e := by
  rw [mapCells, Except.foldlM_error_iff]
  constructor
  · rintro ⟨before, cell, after, columns, hcells, hbefore, hcell⟩
    obtain ⟨hhold, hin, hnodup⟩ := hold_of_mapCells hbefore
    obtain ⟨e, rfl, hrefuses⟩ := (insertCell_eq_error_iff hhold ⟨hin, hnodup⟩).mp hcell
    exact ⟨e, rfl, before, cell, after, hcells, ⟨hin, hnodup⟩, hrefuses⟩
  · rintro ⟨e, rfl, before, cell, after, hcells, hmap, hrefuses⟩
    obtain ⟨columns, hbefore, hhold⟩ := mapCells_eq_ok hmap.contained hmap.nodup
    have hcell := (insertCell_eq_error_iff hhold hmap).mpr ⟨e, rfl, hrefuses⟩
    exact ⟨before, cell, after, columns, hcells, hbefore, hcell⟩

/-! ### All cells -/

/-- The maps are those of the cells: by column and row, each cell once and nothing else, and no column is
empty. -/
structure Columns.Maps (columns : Columns) (cells : List DataCell) : Prop where
  entry : ∀ (col row : ℕ) (c : DataCell), (columns[col]?.bind fun column => column[row]?) = some c ↔
    c ∈ cells ∧ c.position = ⟨row, col⟩
  entries_perm : (columns.toList.flatMap fun e => e.2.toList.map Prod.snd).Perm cells
  size : ∀ (col : ℕ) (column : Std.HashMap ℕ DataCell), columns[col]? = some column →
    column.size = (inColumn cells col).length
  nonempty : ∀ (col : ℕ) (column : Std.HashMap ℕ DataCell), columns[col]? = some column →
    column.isEmpty = false

namespace Columns.Hold

variable {columns : Columns} {cells : List DataCell} (h : columns.Hold cells)
include h

/-- All the maps together have each cell once. -/
theorem entries_perm (hnodup : cells.Nodup) :
    (columns.toList.flatMap fun e => e.2.toList.map Prod.snd).Perm cells := by
  have hvalues : ∀ e ∈ columns.toList, (e.2.toList.map Prod.snd).Perm (inColumn cells e.1) := fun e he =>
    h.values_perm (Std.HashMap.mem_toList_iff_getElem?_eq_some.mp he)
  have hentries : (columns.toList.flatMap fun e => e.2.toList.map Prod.snd).Nodup := by
    rw [List.nodup_flatMap]
    constructor
    · intro e he
      exact (hvalues e he).nodup_iff.mpr (hnodup.filter _)
    · refine Std.HashMap.distinct_keys_toList.imp_of_mem fun {e e'} he he' hne => ?_
      intro c hc hc'
      have hcol := List.mem_filter.mp ((hvalues e he).mem_iff.mp hc)
      have hcol' := List.mem_filter.mp ((hvalues e' he').mem_iff.mp hc')
      rw [← of_decide_eq_true hcol.2, ← of_decide_eq_true hcol'.2, beq_self_eq_true] at hne
      cases hne
  rw [List.perm_ext_iff_of_nodup hentries hnodup]
  intro c
  rw [List.mem_flatMap]
  constructor
  · rintro ⟨e, he, hc⟩
    exact List.mem_of_mem_filter ((hvalues e he).mem_iff.mp hc)
  · intro hc
    have hentry := h.entry_eq_some_iff.mpr ⟨hc, rfl⟩
    obtain ⟨column, hcol, hrow⟩ := Option.bind_eq_some_iff.mp hentry
    have he : (c.position.col, column) ∈ columns.toList :=
      Std.HashMap.mem_toList_iff_getElem?_eq_some.mpr hcol
    exact ⟨_, he, List.mem_map.mpr ⟨_, Std.HashMap.mem_toList_iff_getElem?_eq_some.mpr hrow, rfl⟩⟩

theorem maps (hnodup : (cells.map DataCell.position).Nodup) : columns.Maps cells where
  entry _ _ _ := h.entry_eq_some_iff
  entries_perm := h.entries_perm hnodup.of_map
  size col column hcol := by
    rw [← (h.values_perm hcol).length_eq, List.length_map, Std.HashMap.length_toList]
  nonempty col column hcol := by
    have hmem : col ∈ columns := by
      rw [Std.HashMap.mem_iff_isSome_getElem?, hcol]
      rfl
    have hne := h.nonempty col hmem
    rw [Std.HashMap.getD_eq_getD_getElem?, hcol, Option.getD_some] at hne
    rw [← Std.HashMap.isEmpty_toList, List.isEmpty_eq_false_iff]
    exact hne

end Columns.Hold

/-- **The maps have every cell once, or the first cell that is refused is the error**: `map_cells` returns
maps exactly when all cells are of the matrix and no two are in one position. -/
theorem mapCells_exact (dimensions : Dimensions) (cells : List DataCell) :
    ((∃ columns, mapCells dimensions cells = .ok columns) ↔
      (∀ c ∈ cells, c.position.row < dimensions.extendedRows ∧ c.position.col < dimensions.width) ∧
        (cells.map DataCell.position).Nodup) ∧
    (∀ columns, mapCells dimensions cells = .ok columns → columns.Maps cells) ∧
    (∀ e, mapCells dimensions cells = Run.fail e ↔ FirstRefused dimensions cells e) ∧
    (mapCells dimensions cells).Returns := by
  refine ⟨?_, ?_, ?_, mapCells_returns dimensions cells⟩
  · rw [exists_mapCells_iff]
    constructor
    · rintro ⟨hin, hnodup⟩
      exact ⟨fun c hc => dimensions.extendedContains_iff.mp (hin c hc), hnodup⟩
    · rintro ⟨hin, hnodup⟩
      exact ⟨fun c hc => dimensions.extendedContains_iff.mpr (hin c hc), hnodup⟩
  · intro columns hcolumns
    obtain ⟨hhold, -, hnodup⟩ := hold_of_mapCells hcolumns
    exact hhold.maps hnodup
  · intro e
    rw [Run.fail, mapCells_eq_error_iff]
    constructor
    · rintro ⟨_, ⟨rfl⟩, hfirst⟩
      exact hfirst
    · intro hfirst
      exact ⟨e, rfl, hfirst⟩

end AvailCore
