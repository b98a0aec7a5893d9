import AvailCore.Recovery.Data
import Std.Data.TreeMap.Lemmas

/-!
# Rows of cells

`rows` of `kate/recovery/src/data.rs`: cells are sorted by row and column, the bytes of
each row are joined in a sorted map, and a row is kept when it has as many bytes as a row
of the matrix.

## What is proved

The rows that are kept are in order, and among them is every row with one cell for each
column. A row is kept for the number of its cells alone: the bytes of each are those of
one cell for each column when no other cells are as many (`mergesRows_iff`).
-/

namespace AvailCore

/-- `(row, col).cmp`, in the order that cells are sorted in. -/
def Position.le (p q : Position) : Bool := p.row < q.row || (p.row == q.row && p.col ≤ q.col)

/-- `rows.entry(row).or_insert_with(Vec::default).extend(data)` -/
def extendRow (rows : Std.TreeMap ℕ (List UInt8)) (cell : SingleCell) : Std.TreeMap ℕ (List UInt8) :=
  rows.alter cell.position.row fun row => some (row.getD [] ++ cell.data.val)

/-- `data::rows` -/
def dataRows (dimensions : Dimensions) (cells : List SingleCell) : List (ℕ × List UInt8) :=
  let sortedCells := cells.mergeSort fun a b => a.position.le b.position
  let rows := sortedCells.foldl extendRow ∅
  (rows.filter fun _ row => row.length == dimensions.rowByteSize).toList

/-! ### The cells of a row -/

/-- The cells of a row, in the order they are in. -/
def inRow (r : ℕ) (cells : List SingleCell) : List SingleCell := cells.filter fun c => c.position.row = r

theorem mem_inRow {r : ℕ} {cells : List SingleCell} {c : SingleCell} :
    c ∈ inRow r cells ↔ c ∈ cells ∧ c.position.row = r := by
  rw [inRow, List.mem_filter, decide_eq_true_eq]

theorem inRow_append_singleton (r : ℕ) (cells : List SingleCell) (c : SingleCell) : inRow r (cells ++ [c]) =
    if c.position.row = r then inRow r cells ++ [c] else inRow r cells := by
  unfold inRow
  split_ifs with hr
  · simp [hr]
  · simp [hr]

/-- The map holds, for each row with a cell, the bytes of its cells. -/
theorem getElem?_foldl_extendRow (cells : List SingleCell) (r : ℕ) : (cells.foldl extendRow ∅)[r]? =
    if inRow r cells = [] then none else some ((inRow r cells).flatMap fun c => c.data.val) := by
  induction cells using List.reverseRecOn with
  | nil => simp [inRow]
  | append_singleton cells c ih =>
    rw [List.foldl_append, List.foldl_cons, List.foldl_nil, extendRow, Std.TreeMap.getElem?_alter,
      inRow_append_singleton]
    by_cases hr : c.position.row = r
    · subst hr
      have hne : ¬ inRow c.position.row cells ++ [c] = [] := by simp
      rw [if_pos (compare_eq_iff_eq.mpr rfl), ih, if_pos rfl, if_neg hne, List.flatMap_append, List.flatMap_singleton]
      split_ifs with hnil
      · rw [hnil]
        rfl
      · rfl
    · rw [if_neg fun h => hr (compare_eq_iff_eq.mp h), if_neg hr, ih]

/-- The bytes of cells are as many as those of a row when the cells are. -/
theorem length_flatMap_data (cells : List SingleCell) :
    (cells.flatMap fun c => c.data.val).length = chunkSize * cells.length := by
  induction cells with
  | nil => rfl
  | cons c cells ih => rw [List.flatMap_cons, List.length_append, ih, c.data.property, List.length_cons, Nat.mul_succ,
      Nat.add_comm]

/-- **The rows that are kept**, and their bytes. -/
theorem mem_dataRows {d : Dimensions} {cells : List SingleCell} {r : ℕ} {bytes : List UInt8} :
    (r, bytes) ∈ dataRows d cells ↔ (inRow r cells).length = d.width ∧
      bytes = (inRow r (cells.mergeSort fun a b => a.position.le b.position)).flatMap fun c => c.data.val := by
  have hperm : (inRow r (cells.mergeSort fun a b => a.position.le b.position)).Perm (inRow r cells) :=
    (List.mergeSort_perm _ _).filter _
  rw [dataRows, Std.TreeMap.toList_filter, List.mem_filter, Std.TreeMap.mem_toList_iff_getElem?_eq_some,
    getElem?_foldl_extendRow, beq_iff_eq]
  constructor
  · rintro ⟨hentry, hlen⟩
    split_ifs at hentry
    rw [Option.some.injEq] at hentry
    rw [← hentry, length_flatMap_data, Dimensions.rowByteSize] at hlen
    exact ⟨hperm.length_eq.symm.trans (Nat.eq_of_mul_eq_mul_left chunkSize_pos hlen), hentry.symm⟩
  · rintro ⟨hcount, rfl⟩
    rw [← hperm.length_eq] at hcount
    have hne : inRow r (cells.mergeSort fun a b => a.position.le b.position) ≠ [] := by
      intro hnil
      rw [hnil] at hcount
      exact absurd hcount d.width_pos.ne
    rw [if_neg hne, length_flatMap_data, hcount]
    exact ⟨rfl, rfl⟩

/-- The rows are in order. -/
theorem pairwise_dataRows (d : Dimensions) (cells : List SingleCell) :
    ((dataRows d cells).map Prod.fst).Pairwise (· < ·) := by
  rw [List.pairwise_map, dataRows, Std.TreeMap.toList_filter]
  apply List.Pairwise.filter
  exact Std.TreeMap.ordered_keys_toList.imp fun h => compare_lt_iff_lt.mp h

theorem Position.le_iff {p q : Position} :
    p.le q = true ↔ p.row < q.row ∨ p.row = q.row ∧ p.col ≤ q.col := by
  simp only [Position.le, Bool.or_eq_true, Bool.and_eq_true, decide_eq_true_eq, beq_iff_eq]

theorem Position.le_antisymm {p q : Position} (h : p.le q = true) (h' : q.le p = true) : p = q := by
  rw [Position.le_iff] at h h'
  obtain ⟨row, col⟩ := p
  obtain ⟨row', col'⟩ := q
  rw [Position.mk.injEq]
  dsimp only at h h'
  omega

/-- Sorted, the cells of a row are in order. -/
theorem pairwise_inRow_mergeSort (r : ℕ) (cells : List SingleCell) :
    ((inRow r (cells.mergeSort fun a b => a.position.le b.position)).map fun c => c.position).Pairwise
      fun p q => p.le q = true := by
  rw [List.pairwise_map]
  apply List.Pairwise.filter
  apply List.pairwise_mergeSort
  · intro a b c hab hbc
    rw [Position.le_iff] at hab hbc ⊢
    omega
  · intro a b
    rw [Bool.or_eq_true, Position.le_iff, Position.le_iff]
    omega

/-! ### Cells for each column -/

/-- The columns of a row, in order. -/
def columnPositions (d : Dimensions) (r : ℕ) : List Position := (List.range d.width).map fun col => ⟨r, col⟩

/-- There is one cell of the row for each column, and no other. -/
def OneForEachColumn (d : Dimensions) (cells : List SingleCell) (r : ℕ) : Prop :=
  (∀ col < d.width, ((cells.map fun c => c.position).count ⟨r, col⟩) = 1) ∧
    ∀ c ∈ cells, c.position.row = r → c.position.col < d.width

theorem mem_columnPositions {d : Dimensions} {r : ℕ} {p : Position} :
    p ∈ columnPositions d r ↔ p.row = r ∧ p.col < d.width := by
  obtain ⟨row, col⟩ := p
  simp only [columnPositions, List.mem_map, List.mem_range, Position.mk.injEq]
  constructor
  · rintro ⟨i, hi, rfl, rfl⟩
    exact ⟨rfl, hi⟩
  · rintro ⟨rfl, hcol⟩
    exact ⟨col, hcol, rfl, rfl⟩

theorem nodup_columnPositions (d : Dimensions) (r : ℕ) : (columnPositions d r).Nodup :=
  List.nodup_range.map fun _ _ h => (Position.mk.injEq .. ▸ h).2

@[simp] theorem length_columnPositions (d : Dimensions) (r : ℕ) : (columnPositions d r).length = d.width := by
  rw [columnPositions, List.length_map, List.length_range]

theorem map_position_inRow (cells : List SingleCell) (r : ℕ) :
    (inRow r cells).map (fun c => c.position) = (cells.map fun c => c.position).filter fun p => p.row = r := by
  rw [List.filter_map]
  rfl

theorem count_inRow {cells : List SingleCell} {r : ℕ} {p : Position} (h : p.row = r) :
    ((inRow r cells).map fun c => c.position).count p = (cells.map fun c => c.position).count p := by
  rw [map_position_inRow, List.count_filter]
  exact decide_eq_true h

/-- The cells of such a row are one for each column, in some order. -/
theorem oneForEachColumn_iff_perm {d : Dimensions} {cells : List SingleCell} {r : ℕ} :
    OneForEachColumn d cells r ↔ ((inRow r cells).map fun c => c.position).Perm (columnPositions d r) := by
  rw [List.perm_iff_count]
  constructor
  · rintro ⟨hone, hin⟩ p
    by_cases hp : p ∈ columnPositions d r
    · obtain ⟨rfl, hcol⟩ := mem_columnPositions.mp hp
      rw [count_inRow rfl, List.count_eq_one_of_mem (nodup_columnPositions d p.row) hp]
      exact hone p.col hcol
    · rw [List.count_eq_zero_of_not_mem hp, List.count_eq_zero]
      intro hmem
      obtain ⟨c, hc, rfl⟩ := List.mem_map.mp hmem
      obtain ⟨hc, hrow⟩ := mem_inRow.mp hc
      exact hp (mem_columnPositions.mpr ⟨hrow, hin c hc hrow⟩)
  · intro hcount
    constructor
    · intro col hcol
      have hp : (⟨r, col⟩ : Position) ∈ columnPositions d r := mem_columnPositions.mpr ⟨rfl, hcol⟩
      rw [← count_inRow rfl, hcount, List.count_eq_one_of_mem (nodup_columnPositions d r) hp]
    · intro c hc hrow
      have hmem : c.position ∈ (inRow r cells).map fun c => c.position :=
        List.mem_map_of_mem (mem_inRow.mpr ⟨hc, hrow⟩)
      rw [← List.count_pos_iff, hcount, List.count_pos_iff] at hmem
      exact (mem_columnPositions.mp hmem).2

/-- Such a row has as many cells as the matrix has columns. -/
theorem OneForEachColumn.length_inRow {d : Dimensions} {cells : List SingleCell} {r : ℕ}
    (h : OneForEachColumn d cells r) : (inRow r cells).length = d.width := by
  have hlen := (oneForEachColumn_iff_perm.mp h).length_eq
  rwa [List.length_map, length_columnPositions] at hlen

/-- Sorted, they are in the order of the columns. -/
theorem OneForEachColumn.map_position_mergeSort {d : Dimensions} {cells : List SingleCell} {r : ℕ}
    (h : OneForEachColumn d cells r) :
    (inRow r (cells.mergeSort fun a b => a.position.le b.position)).map (fun c => c.position) =
      columnPositions d r := by
  have hperm : (inRow r (cells.mergeSort fun a b => a.position.le b.position)).Perm (inRow r cells) :=
    (List.mergeSort_perm _ _).filter _
  have hsorted := pairwise_inRow_mergeSort r cells
  have hcolumns : (columnPositions d r).Pairwise fun p q => p.le q = true := by
    rw [columnPositions, List.pairwise_map]
    refine List.pairwise_le_range.imp fun {i j} hle => ?_
    exact Position.le_iff.mpr (Or.inr ⟨rfl, hle⟩)
  exact ((hperm.map _).trans (oneForEachColumn_iff_perm.mp h)).eq_of_pairwise
    (fun _ _ _ _ => Position.le_antisymm) hsorted hcolumns

/-- As many cells as columns, with one in each column among them, are one for each column. -/
theorem oneForEachColumn_of_subset {d : Dimensions} {cells cs : List SingleCell} {r : ℕ}
    (hlen : (inRow r cells).length = d.width) (hcs : ∀ c ∈ cs, c ∈ cells)
    (hpos : cs.map (fun c => c.position) = columnPositions d r) : OneForEachColumn d cells r := by
  rw [oneForEachColumn_iff_perm]
  have hsub : columnPositions d r ⊆ (inRow r cells).map fun c => c.position := by
    intro p hp
    have hrow := (mem_columnPositions.mp hp).1
    rw [← hpos] at hp
    obtain ⟨c, hc, rfl⟩ := List.mem_map.mp hp
    exact List.mem_map_of_mem (mem_inRow.mpr ⟨hcs c hc, hrow⟩)
  refine (((nodup_columnPositions d r).subperm hsub).perm_of_length_le ?_).symm
  rw [List.length_map, length_columnPositions, hlen]

/-! ### What is kept -/

/-- What the rows of cells are to be: in order, each the bytes of one cell for each column,
and every row there that has one cell for each column. -/
structure MergesRows (d : Dimensions) (cells : List SingleCell) : Prop where
  sorted : ((dataRows d cells).map Prod.fst).Pairwise (· < ·)
  whole : ∀ row ∈ dataRows d cells, ∃ cs : List SingleCell, (∀ c ∈ cs, c ∈ cells) ∧
    cs.map (fun c => c.position) = columnPositions d row.1 ∧ row.2 = cs.flatMap fun c => c.data.val
  complete : ∀ r, OneForEachColumn d cells r → ∃ bytes, (r, bytes) ∈ dataRows d cells

/-- **The rows are what they are to be** exactly when no row has as many cells as the matrix
has columns unless they are one for each. -/
theorem mergesRows_iff (d : Dimensions) (cells : List SingleCell) :
    MergesRows d cells ↔ ∀ r, (inRow r cells).length = d.width → OneForEachColumn d cells r := by
  constructor
  · intro hrows r hlen
    obtain ⟨cs, hcs, hpos, -⟩ := hrows.whole (r, _) (mem_dataRows.mpr ⟨hlen, rfl⟩)
    exact oneForEachColumn_of_subset hlen hcs hpos
  · intro hone
    refine ⟨pairwise_dataRows d cells, ?_, ?_⟩
    · rintro ⟨r, bytes⟩ hrow
      obtain ⟨hlen, rfl⟩ := mem_dataRows.mp hrow
      refine ⟨_, fun c hc => ?_, (hone r hlen).map_position_mergeSort, rfl⟩
      exact List.mem_mergeSort.mp (mem_inRow.mp hc).1
    · intro r h
      exact ⟨_, mem_dataRows.mpr ⟨h.length_inRow, rfl⟩⟩

/-- Of a row of two columns, the cell of the first is there twice. -/
theorem not_mergesRows_twice : ¬ MergesRows ⟨⟨1, NonZeroU16.one_bounds⟩, ⟨2, NonZeroU16.two_bounds⟩⟩
    [⟨⟨0, 0⟩, List.Vector.replicate 80 0⟩, ⟨⟨0, 0⟩, List.Vector.replicate 80 1⟩] := by
  intro hrows
  obtain ⟨cs, hcs, hpos, -⟩ := hrows.whole (0, _) (mem_dataRows.mpr ⟨rfl, rfl⟩)
  have hsecond : (⟨0, 1⟩ : Position) ∈ cs.map fun c => c.position := by
    rw [hpos]
    exact mem_columnPositions.mpr ⟨rfl, Nat.one_lt_two⟩
  obtain ⟨c, hc, hcol⟩ := List.mem_map.mp hsecond
  have hmem := hcs c hc
  simp only [List.mem_cons, List.not_mem_nil, or_false] at hmem
  obtain rfl | rfl := hmem
  · cases hcol
  · cases hcol

end AvailCore
