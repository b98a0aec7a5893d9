import AvailCore.Recovery.AppPositions
import Std.Data.HashSet.Lemmas
import Mathlib.Data.List.Perm.Subperm

/-!
# The positions that a light client asks for

A client does not ask for cells one by one. For columns it has `columns_positions` of
`kate/recovery/src/com.rs` draw a part of the cells of each; for the rows of an application
it asks for all their cells, `extended_rows_positions` of `matrix.rs`.

## The model

The columns are gathered in a hash set, which has an order of its own (`Traversal`), and
the cells of each are drawn by `choose_multiple` of `rand`, of which its documentation is
assumed and no more: it returns as many elements as asked for, or all when there are no
more, none of them twice (`Chooser`). The generator goes from one column to the next. Its
numbers are `u32` that do not overflow, and a `usize` holds them.

## What is proved

No position is drawn twice, and each column of the matrix that was asked for has the
same number of them (`nodup_columnsPositions`, `countP_columnsPositions`). The factor is a
percentage of the extended rows, rounded up, so at 50 a column is drawn that can be
reconstructed, and at less only one that is short (`height_le_cellsOf_iff`).

The cells of the rows of an application hold those of the application
(`appSpecificCells_subset_extendedRowsPositions`).
-/

namespace AvailCore

namespace Dimensions

variable (d : Dimensions)

/-- `Dimensions::col_positions` -/
def colPositions (col : ℕ) : List Position :=
  if d.cols.val ≤ col then [] else (List.range d.extendedRows).map fun row => ⟨row, col⟩

/-- `Dimensions::extended_row_positions` -/
def extendedRowPositions (row : ℕ) : List Position :=
  if d.extendedRows ≤ row then [] else (List.range d.cols.val).map fun col => ⟨row, col⟩

/-- `Dimensions::extended_rows_positions` -/
def extendedRowsPositions (rows : List ℕ) : List Position := rows.flatMap d.extendedRowPositions

theorem mem_colPositions {col : ℕ} {p : Position} :
    p ∈ d.colPositions col ↔ d.extendedContains p = true ∧ p.col = col := by
  rw [colPositions, extendedContains_iff]
  split_ifs with h
  · refine iff_of_false List.not_mem_nil ?_
    rintro ⟨⟨-, hlt⟩, rfl⟩
    exact absurd h (not_le.mpr hlt)
  · rw [List.mem_map]
    constructor
    · rintro ⟨row, hrow, rfl⟩
      exact ⟨⟨List.mem_range.mp hrow, not_le.mp h⟩, rfl⟩
    · rintro ⟨⟨hrow, -⟩, rfl⟩
      exact ⟨p.row, List.mem_range.mpr hrow, rfl⟩

theorem nodup_colPositions (col : ℕ) : (d.colPositions col).Nodup := by
  unfold colPositions
  split_ifs
  · exact List.nodup_nil
  · exact List.nodup_range.map fun _ _ h => congrArg Position.row h

theorem length_colPositions (col : ℕ) : (d.colPositions col).length = if col < d.width then d.extendedRows else 0 := by
  rcases lt_or_ge col d.width with h | h
  · rw [colPositions, if_neg (show ¬ d.cols.val ≤ col from not_le.mpr h), if_pos h, List.length_map, List.length_range]
  · rw [colPositions, if_pos (show d.cols.val ≤ col from h), if_neg (not_lt.mpr h), List.length_nil]

theorem mem_extendedRowPositions {row : ℕ} {p : Position} :
    p ∈ d.extendedRowPositions row ↔ d.extendedContains p = true ∧ p.row = row := by
  rw [extendedRowPositions, extendedContains_iff]
  split_ifs with h
  · refine iff_of_false List.not_mem_nil ?_
    rintro ⟨⟨hlt, -⟩, rfl⟩
    exact absurd h (not_le.mpr hlt)
  · rw [List.mem_map]
    constructor
    · rintro ⟨col, hcol, rfl⟩
      exact ⟨⟨not_le.mp h, List.mem_range.mp hcol⟩, rfl⟩
    · rintro ⟨⟨-, hcol⟩, rfl⟩
      exact ⟨p.col, List.mem_range.mpr hcol, rfl⟩

theorem mem_extendedRowsPositions {rows : List ℕ} {p : Position} :
    p ∈ d.extendedRowsPositions rows ↔ d.extendedContains p = true ∧ p.row ∈ rows := by
  simp only [extendedRowsPositions, List.mem_flatMap, mem_extendedRowPositions]
  constructor
  · rintro ⟨row, hrow, hin, rfl⟩
    exact ⟨hin, hrow⟩
  · rintro ⟨hin, hrow⟩
    exact ⟨p.row, hrow, hin, rfl⟩

/-- Rows that are asked for once have their positions once. -/
theorem nodup_extendedRowsPositions {rows : List ℕ} (h : rows.Nodup) : (d.extendedRowsPositions rows).Nodup := by
  rw [extendedRowsPositions, List.nodup_flatMap]
  constructor
  · intro row _
    unfold extendedRowPositions
    split_ifs
    · exact List.nodup_nil
    · exact List.nodup_range.map fun _ _ h => congrArg Position.col h
  · refine h.imp fun hne p hp hp' => hne ?_
    rw [← (d.mem_extendedRowPositions.mp hp).2, (d.mem_extendedRowPositions.mp hp').2]

end Dimensions

/-! ### The cells of columns, in part -/

/-- `choose_multiple`, with the generator it draws from: `amount` of the elements, or all, none of them twice. -/
structure Chooser (ρ α : Type) where
  choose : ρ → List α → ℕ → List α × ρ
  subperm : ∀ rng xs amount, (choose rng xs amount).1.Subperm xs
  length : ∀ rng xs amount, (choose rng xs amount).1.length = min amount xs.length

/-- The first elements. -/
def Chooser.first (ρ α : Type) : Chooser ρ α where
  choose rng xs amount := (xs.take amount, rng)
  subperm _ xs amount := (List.take_sublist amount xs).subperm
  length _ _ _ := List.length_take

/-- `.flat_map(|col| col.choose_multiple(rng, cells))` -/
def chooseEach {ρ α : Type} (C : Chooser ρ α) (cells : ℕ) : ρ → List (List α) → List α × ρ
  | rng, [] => ([], rng)
  | rng, col :: cols =>
    let (chosen, rng) := C.choose rng col cells
    let (others, rng) := chooseEach C cells rng cols
    (chosen ++ others, rng)

/-- `(factor as u32 * dimensions.extended_rows()).div_ceil(100)` -/
def cellsOf (dimensions : Dimensions) (factor : UInt8) : ℕ := (factor.toNat * dimensions.extendedRows + 99) / 100

/-- The columns of the positions, in the order of the hash set. -/
def requestedColumns (T : Traversal ℕ) (positions : List Position) : List ℕ :=
  T.order (Std.HashSet.ofList (positions.map Position.col)).toList

/-- `columns_positions` -/
def columnsPositions {ρ : Type} (T : Traversal ℕ) (C : Chooser ρ Position) (dimensions : Dimensions)
    (positions : List Position) (factor : UInt8) (rng : ρ) : List Position × ρ :=
  chooseEach C (cellsOf dimensions factor) rng ((requestedColumns T positions).map dimensions.colPositions)

/-- What is drawn of each list is of the lists together. -/
theorem subperm_chooseEach {ρ α : Type} (C : Chooser ρ α) (cells : ℕ) (rng : ρ) (cols : List (List α)) :
    (chooseEach C cells rng cols).1.Subperm cols.flatten := by
  induction cols generalizing rng with
  | nil => exact List.nil_subperm
  | cons col cols ih => exact (C.subperm rng col cells).append (ih _)

theorem nodup_requestedColumns (T : Traversal ℕ) (positions : List Position) :
    (requestedColumns T positions).Nodup := by
  refine (T.order_perm _).nodup_iff.mpr ?_
  exact Std.HashSet.distinct_toList.imp fun h heq => absurd (beq_iff_eq.mpr heq) (by rw [h]; exact Bool.false_ne_true)

theorem mem_requestedColumns {T : Traversal ℕ} {positions : List Position} {col : ℕ} :
    col ∈ requestedColumns T positions ↔ ∃ p ∈ positions, p.col = col := by
  rw [requestedColumns, (T.order_perm _).mem_iff, Std.HashSet.mem_toList, Std.HashSet.mem_ofList,
    List.contains_iff_mem, List.mem_map]

section Columns

variable {ρ : Type} (T : Traversal ℕ) (C : Chooser ρ Position) (d : Dimensions) (positions : List Position)
  (factor : UInt8) (rng : ρ)

/-- No position is drawn twice. -/
theorem nodup_columnsPositions : (columnsPositions T C d positions factor rng).1.Nodup := by
  obtain ⟨l, hperm, hsub⟩ := subperm_chooseEach C (cellsOf d factor) rng
    ((requestedColumns T positions).map d.colPositions)
  refine hperm.nodup_iff.mp (hsub.nodup ?_)
  rw [← List.flatMap_def, List.nodup_flatMap]
  refine ⟨fun col _ => d.nodup_colPositions col, ?_⟩
  refine (nodup_requestedColumns T positions).imp fun hne p hp hp' => hne ?_
  rw [← (d.mem_colPositions.mp hp).2, (d.mem_colPositions.mp hp').2]

/-- Only positions of the extended matrix are drawn. -/
theorem extendedContains_of_mem_columnsPositions {p : Position}
    (h : p ∈ (columnsPositions T C d positions factor rng).1) : d.extendedContains p = true := by
  have hin := (subperm_chooseEach C (cellsOf d factor) rng _).subset h
  obtain ⟨_, hcol, hp⟩ := List.mem_flatten.mp hin
  obtain ⟨_, -, rfl⟩ := List.mem_map.mp hcol
  exact (d.mem_colPositions.mp hp).1

/-- Of each of the columns as many are drawn, of other columns none. -/
theorem countP_chooseEach {cols : List ℕ} (hcols : cols.Nodup) (cells col : ℕ) :
    (chooseEach C cells rng (cols.map d.colPositions)).1.countP (fun p => p.col = col) =
      if col ∈ cols then min cells (d.colPositions col).length else 0 := by
  induction cols generalizing rng with
  | nil => rfl
  | cons first cols ih =>
    obtain ⟨hfirst, hcols⟩ := List.nodup_cons.mp hcols
    have hof : ∀ p ∈ (C.choose rng (d.colPositions first) cells).1, p.col = first := fun p hp =>
      (d.mem_colPositions.mp ((C.subperm ..).subset hp)).2
    rw [List.map_cons, chooseEach, List.countP_append, ih _ hcols]
    by_cases heq : first = col
    · subst heq
      have hall : (C.choose rng (d.colPositions first) cells).1.countP (fun p => p.col = first) =
          min cells (d.colPositions first).length := by
        rw [← C.length rng (d.colPositions first) cells, List.countP_eq_length]
        exact fun p hp => decide_eq_true (hof p hp)
      rw [hall, if_neg hfirst, if_pos (List.mem_cons_self ..), Nat.add_zero]
    · have hnone : (C.choose rng (d.colPositions first) cells).1.countP (fun p => p.col = col) = 0 := by
        rw [List.countP_eq_zero]
        exact fun p hp hcol => heq ((hof p hp).symm.trans (of_decide_eq_true hcol))
      rw [hnone, Nat.zero_add]
      simp only [List.mem_cons, Ne.symm heq, false_or]

/-- **Each column of the matrix that was asked for gets the same number of cells**, other columns none. -/
theorem countP_columnsPositions (col : ℕ) :
    (columnsPositions T C d positions factor rng).1.countP (fun p => p.col = col) =
      if col < d.width ∧ ∃ p ∈ positions, p.col = col then min (cellsOf d factor) d.extendedRows else 0 := by
  rw [columnsPositions, countP_chooseEach C d rng (nodup_requestedColumns T positions), d.length_colPositions]
  simp only [mem_requestedColumns]
  by_cases hcol : col < d.width
  · simp only [hcol, true_and, if_true]
  · simp only [hcol, false_and, if_false, Nat.min_zero, ite_self]

end Columns

/-- **Half of a column is needed**: of a factor below 50, it is drawn when the matrix has few rows only. -/
theorem height_le_cellsOf_iff (d : Dimensions) (factor : UInt8) :
    d.height ≤ cellsOf d factor ↔ (50 - factor.toNat) * d.height < 50 := by
  have hrows : factor.toNat * d.extendedRows = 2 * (factor.toNat * d.height) := by
    rw [Dimensions.extendedRows, extensionFactor, Dimensions.height]
    ring
  rw [cellsOf, hrows, Nat.le_div_iff_mul_le (by decide)]
  rcases le_or_gt 50 factor.toNat with hle | hlt
  · have hmul := Nat.mul_le_mul_right d.height hle
    rw [Nat.sub_eq_zero_of_le hle]
    omega
  · have hmul : (50 - factor.toNat) * d.height + factor.toNat * d.height = 50 * d.height := by
      rw [← Nat.add_mul, Nat.sub_add_cancel hlt.le]
    omega

/-! ### The cells of rows -/

theorem extendedContains_of_mem_appSpecificCells {index : DataLookup} {d : Dimensions} {id : AppId}
    {positions : List Position} (hpositions : appSpecificCells index d id = some positions) :
    ∀ p ∈ positions, d.extendedContains p = true := by
  obtain ⟨range, hrange, hcells⟩ := Option.bind_eq_some_iff.mp hpositions
  obtain ⟨hend, rfl⟩ := (appSpecificCells_eq_some hrange).mp hpositions
  intro p hp
  obtain ⟨cell, hcell, rfl⟩ := List.mem_map.mp hp
  have hlt : cell < d.size := by
    have hbounds := List.mem_range'_1.mp hcell
    omega
  rw [d.extendedContains_iff]
  exact ⟨Nat.mul_lt_mul_of_pos_right (d.div_width_lt hlt) (by decide), Nat.mod_lt _ d.width_pos⟩

/-- **The cells of an application are among those of its rows.** -/
theorem appSpecificCells_subset_extendedRowsPositions {index : DataLookup} {d : Dimensions} {id : AppId}
    {positions : List Position} (hpositions : appSpecificCells index d id = some positions) {rows : List ℕ}
    (hrows : ∀ p ∈ positions, p.row ∈ rows) : ∀ p ∈ positions, p ∈ d.extendedRowsPositions rows := fun p hp =>
  d.mem_extendedRowsPositions.mpr ⟨extendedContains_of_mem_appSpecificCells hpositions p hp, hrows p hp⟩

end AvailCore
