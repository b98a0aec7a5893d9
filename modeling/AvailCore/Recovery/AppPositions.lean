import AvailCore.Core.CompactDataLookup
import AvailCore.Recovery.AppData
import AvailCore.Recovery.Commitments

/-!
# The rows and the cells of an application

`kate/recovery/src/com.rs` says twice where the data of an application is in the extended
matrix: `app_specific_rows` from the first and the last cell of its range,
`app_specific_cells` cell by cell.

## What is proved

Both say the same of a range that has cells, and of one that ends at 0 or outside the
matrix. A range without cells that ends inside the matrix still has the rows from its
start to the cell before its end, if there are any: the rows are those of the cells when
every range of the application is not of this kind (`rowsMatchCells_iff`). A lookup of a
layout has no such range (`rowsMatchCells_lookup`); a decoded one may
(`rowsMatchCells_empty_range`).

The entry of `AppId(0)` that a lookup of a layout gets on the wire is an empty range at 0,
which both treat like none: an application has the same rows, and the same data, with the
lookup that is decoded (`decoded_lookup_same_data`).
-/

namespace AvailCore

/-! ### The rows -/

/-- A range that is refused has no rows, -/
theorem appSpecificRows_of_refused {ε : Type} {b : Build} {index : DataLookup} {d : Dimensions} {appId : AppId}
    {range : DataLookupRange} (hrange : index.rangeOf appId = some range)
    (hout : d.size < range.end_.toNat ∨ range.end_ = 0) :
    (appSpecificRows b index d appId : Run ε _) = .ok [] := by
  simp only [appSpecificRows, hrange, Dimensions.extendedDataRows, if_pos hout]
  rfl

/-- and no cells. -/
theorem appSpecificCells_of_refused {index : DataLookup} {d : Dimensions} {appId : AppId} {range : DataLookupRange}
    (hrange : index.rangeOf appId = some range) (hout : d.size < range.end_.toNat ∨ range.end_ = 0) :
    (appSpecificCells index d appId).getD [] = [] := by
  rw [appSpecificCells, hrange, Option.bind_some, Dimensions.extendedDataPositions]
  rcases hout with hsize | hzero
  · rw [if_neg (not_le.mpr hsize)]
    rfl
  · have hend : range.end_.toNat = 0 := by
      rw [hzero]
      rfl
    simp [hend]

/-- The rows that the cells from `s` to `e` are in. -/
theorem exists_div_eq_iff {w s e r : ℕ} (hw : 0 < w) (hse : s < e) :
    (∃ c, s ≤ c ∧ c < e ∧ c / w = r) ↔ s / w ≤ r ∧ r ≤ (e - 1) / w := by
  constructor
  · rintro ⟨c, hs, he, rfl⟩
    exact ⟨Nat.div_le_div_right hs, Nat.div_le_div_right (Nat.le_sub_one_of_lt he)⟩
  · rintro ⟨hs, he⟩
    -- the first cell of the row, or the first of all when the row starts before it
    have hrow : r * w ≤ e - 1 := (Nat.le_div_iff_mul_le hw).mp he
    have hcell : s < (r + 1) * w := by
      have hlt := Nat.lt_mul_div_succ s hw
      rw [Nat.mul_comm w] at hlt
      exact hlt.trans_le (Nat.mul_le_mul_right w (Nat.succ_le_succ hs))
    refine ⟨max s (r * w), le_max_left .., max_lt hse (by omega), ?_⟩
    rw [Nat.div_eq_iff hw]
    rw [Nat.succ_mul] at hcell
    omega

/-! ### The rows of the cells -/

/-- The rows are in order, and those that the cells are in. -/
def RowsMatchCells (b : Build) (index : DataLookup) (d : Dimensions) (appId : AppId) : Prop :=
  ∃ rows, (appSpecificRows b index d appId : Run CommitmentsError _) = .ok rows ∧ rows.Pairwise (· < ·) ∧
    ∀ i, i ∈ rows ↔ ∃ p ∈ (appSpecificCells index d appId).getD [], p.row = i

/-- A range that has cells, or is refused, or whose start is in a row past that of the cell
before its end. -/
def CountsRows (b : Build) (d : Dimensions) (range : DataLookupRange) : Prop :=
  range.start < range.end_ ∨ range.end_ = 0 ∨ d.size < range.end_.toNat ∨
    (b = .checked → range.start.toNat / d.width * extensionFactor < 2 ^ 32) ∧
    (range.end_.toNat - 1) / d.width * extensionFactor <
      range.start.toNat / d.width * extensionFactor % 2 ^ 32

section Ranges

variable {b : Build} {index : DataLookup} {d : Dimensions} {appId : AppId} {range : DataLookupRange}
  (hrange : index.rangeOf appId = some range)
include hrange

theorem rowsMatchCells_of_refused (hout : d.size < range.end_.toNat ∨ range.end_ = 0) :
    RowsMatchCells b index d appId := by
  refine ⟨[], appSpecificRows_of_refused hrange hout, List.Pairwise.nil, fun i => ?_⟩
  rw [appSpecificCells_of_refused hrange hout]
  simp

/-- The rows of cells are those from the row of the first to the row of the last. -/
theorem rowsMatchCells_of_lt (hlt : range.start < range.end_) (hle : range.end_.toNat ≤ d.size) :
    RowsMatchCells b index d appId := by
  have hcells := UInt32.lt_iff_toNat_lt.mp hlt
  have hne : range.end_ ≠ 0 := by
    intro hzero
    rw [hzero] at hcells
    exact absurd hcells (Nat.not_lt_zero _)
  have hfits := d.extendedRow_lt (hcells.trans_le hle)
  have hrows := (@appSpecificRows_eq_ok_iff CommitmentsError b _ _ _ _ hrange hne hle _).mpr ⟨fun _ => hfits, rfl⟩
  obtain ⟨positions, hpositions, -, hmem⟩ := exists_appSpecificCells hrange hlt hle
  refine ⟨_, hrows, pairwise_appSpecificRows hrows, fun i => ?_⟩
  rw [Nat.mod_eq_of_lt hfits, Dimensions.mem_stepRows, hpositions, Option.getD_some]
  constructor
  · rintro ⟨r, hfirst, hlast, rfl⟩
    obtain ⟨c, hs, he, rfl⟩ := (exists_div_eq_iff d.width_pos hcells).mpr ⟨hfirst, hlast⟩
    exact ⟨_, (hmem _).mpr ⟨c, hs, he, rfl⟩, rfl⟩
  · rintro ⟨p, hp, rfl⟩
    obtain ⟨c, hs, he, rfl⟩ := (hmem p).mp hp
    obtain ⟨hfirst, hlast⟩ := (exists_div_eq_iff d.width_pos hcells).mp ⟨c, hs, he, rfl⟩
    exact ⟨c / d.width, hfirst, hlast, rfl⟩

/-- Without cells, there must not be a row from the start to the cell before the end. -/
theorem rowsMatchCells_iff_of_le (hle : ¬ range.start < range.end_) (hne : range.end_ ≠ 0)
    (hsize : range.end_.toNat ≤ d.size) : RowsMatchCells b index d appId ↔
      (b = .checked → range.start.toNat / d.width * extensionFactor < 2 ^ 32) ∧
      (range.end_.toNat - 1) / d.width * extensionFactor <
        range.start.toNat / d.width * extensionFactor % 2 ^ 32 := by
  have hempty : range.end_.toNat - range.start.toNat = 0 := by
    rw [UInt32.lt_iff_toNat_lt] at hle
    omega
  have hcells : (appSpecificCells index d appId).getD [] = [] := by
    rw [(appSpecificCells_eq_some hrange).mpr ⟨hsize, rfl⟩, hempty]
    rfl
  constructor
  · rintro ⟨rows, hrows, -, hmem⟩
    have hnil : rows = [] := by
      rw [List.eq_nil_iff_forall_not_mem]
      intro i hi
      obtain ⟨p, hp, -⟩ := (hmem i).mp hi
      rw [hcells] at hp
      cases hp
    obtain ⟨hfits, hsteps⟩ := (appSpecificRows_eq_ok_iff hrange hne hsize).mp hrows
    exact ⟨hfits, Dimensions.stepRows_eq_nil.mp (hsteps.symm.trans hnil)⟩
  · rintro ⟨hfits, hpast⟩
    have hsteps := (Dimensions.stepRows_eq_nil.mpr hpast).symm
    refine ⟨[], (appSpecificRows_eq_ok_iff hrange hne hsize).mpr ⟨hfits, hsteps⟩, List.Pairwise.nil, fun i => ?_⟩
    rw [hcells]
    simp

end Ranges

/-- **The rows of an application are those of its cells, when no range without cells has rows.** -/
theorem rowsMatchCells_iff (b : Build) (index : DataLookup) (d : Dimensions) (appId : AppId) :
    RowsMatchCells b index d appId ↔ ∀ range, index.rangeOf appId = some range → CountsRows b d range := by
  cases hrange : index.rangeOf appId with
  | none =>
    refine iff_of_true ⟨[], ?_, List.Pairwise.nil, fun i => ?_⟩ fun _ h => nomatch h
    · simp only [appSpecificRows, hrange]
      rfl
    · simp [appSpecificCells, hrange]
  | some range =>
    simp only [Option.some.injEq, forall_eq']
    unfold CountsRows
    by_cases hlt : range.start < range.end_
    · refine iff_of_true ?_ (Or.inl hlt)
      rcases lt_or_ge d.size range.end_.toNat with hout | hle
      · exact rowsMatchCells_of_refused hrange (Or.inl hout)
      · exact rowsMatchCells_of_lt hrange hlt hle
    · by_cases hzero : range.end_ = 0
      · exact iff_of_true (rowsMatchCells_of_refused hrange (Or.inr hzero)) (Or.inr (Or.inl hzero))
      · rcases lt_or_ge d.size range.end_.toNat with hout | hle
        · exact iff_of_true (rowsMatchCells_of_refused hrange (Or.inl hout)) (Or.inr (Or.inr (Or.inl hout)))
        · rw [rowsMatchCells_iff_of_le hrange hlt hzero hle]
          simp [hlt, hzero, hle]

/-- The lookup of a layout has no range without cells. -/
theorem rowsMatchCells_lookup (b : Build) (L : Layout) (d : Dimensions) (appId : AppId) :
    RowsMatchCells b L.lookup d appId := by
  cases hrange : L.lookup.rangeOf appId with
  | none =>
    refine ⟨[], ?_, List.Pairwise.nil, fun i => ?_⟩
    · simp only [appSpecificRows, hrange]
      rfl
    · simp [appSpecificCells, hrange]
  | some range =>
    have hlt := L.lookup_nonempty (DataLookup.mem_of_rangeOf hrange)
    rcases lt_or_ge d.size range.end_.toNat with hout | hle
    · exact rowsMatchCells_of_refused hrange (Or.inl hout)
    · exact rowsMatchCells_of_lt hrange hlt hle

/-- An application that starts where the next one does has no cells, but the row of the cell before. -/
theorem rowsMatchCells_empty_range :
    DataLookup.decode scaleCompact [8, 8, 4, 4, 8, 4] =
      .ok (⟨[(⟨0⟩, ⟨0, 1⟩), (⟨1⟩, ⟨1, 1⟩), (⟨2⟩, ⟨1, 2⟩)]⟩, []) ∧
    ¬ RowsMatchCells .checked ⟨[(⟨0⟩, ⟨0, 1⟩), (⟨1⟩, ⟨1, 1⟩), (⟨2⟩, ⟨1, 2⟩)]⟩ twoColumns ⟨1⟩ := by
  refine ⟨by decide, ?_⟩
  intro h
  obtain ⟨rows, hrows, -, hmem⟩ := h
  have hzero : rows = [0] := by
    have hrun : (appSpecificRows .checked ⟨[(⟨0⟩, ⟨0, 1⟩), (⟨1⟩, ⟨1, 1⟩), (⟨2⟩, ⟨1, 2⟩)]⟩ twoColumns ⟨1⟩ :
      Run CommitmentsError _) = .ok [0] := by decide
    rw [hrun] at hrows
    cases hrows
    rfl
  obtain ⟨p, hp, -⟩ := (hmem 0).mp (by simp [hzero])
  have hcells : appSpecificCells ⟨[(⟨0⟩, ⟨0, 1⟩), (⟨1⟩, ⟨1, 1⟩), (⟨2⟩, ⟨1, 2⟩)]⟩ twoColumns ⟨1⟩ = some [] := by decide
  rw [hcells] at hp
  cases hp

/-! ### The lookup that is decoded -/

/-- The ranges of an application in two lookups are the same, or one of them is none, and the other
empty at 0. -/
def SameRange (l r : DataLookup) (appId : AppId) : Prop :=
  r.rangeOf appId = l.rangeOf appId ∨ l.rangeOf appId = none ∧ r.rangeOf appId = some ⟨0, 0⟩

/-- An entry of an application that is not there. -/
theorem sameRange_phantom {l : DataLookup} {id : AppId} (hid : id ∉ l.index.map Prod.fst) (appId : AppId) :
    SameRange l ⟨(id, ⟨0, 0⟩) :: l.index⟩ appId := by
  unfold SameRange
  by_cases heq : id = appId
  · subst heq
    right
    exact ⟨DataLookup.rangeOf_eq_none.mpr hid, by simp [DataLookup.rangeOf]⟩
  · left
    simp [DataLookup.rangeOf, heq]

theorem SameRange.appSpecificRows_eq {ε : Type} {l r : DataLookup} {appId : AppId} (h : SameRange l r appId) (b : Build)
    (d : Dimensions) : (appSpecificRows b r d appId : Run ε _) = appSpecificRows b l d appId := by
  rcases h with hsame | ⟨hnone, hempty⟩
  · rw [appSpecificRows, appSpecificRows, hsame]
  · rw [appSpecificRows_of_refused hempty (Or.inr rfl), appSpecificRows, hnone]
    rfl

theorem SameRange.decodeAppExtrinsics_eq {l r : DataLookup} {appId : AppId} (h : SameRange l r appId)
    (K : Codec AppData) (d : Dimensions) (cells : List DataCell) :
    decodeAppExtrinsics K r d cells appId = decodeAppExtrinsics K l d cells appId := by
  rcases h with hsame | ⟨hnone, hempty⟩
  · unfold decodeAppExtrinsics appSpecificCells DataLookup.projectedRangeOf
    rw [hsame]
  · have hcells : (appSpecificCells l d appId).getD [] = [] := by
      rw [appSpecificCells, hnone]
      rfl
    unfold decodeAppExtrinsics
    rw [hcells, appSpecificCells_of_refused hempty (Or.inr rfl)]
    rfl

/-- **The lookup from a header does for the one that was built**: an application has the same rows, and its
extrinsics are the same, whether its entry, or that of `AppId(0)`, is in the block or not. -/
theorem decoded_lookup_same_data (K : Codec CompactDataLookup)
    (hK : ∀ c : CompactDataLookup, c.index.length < 2 ^ 32 → (K.encode c).isSome) {items : List (AppId × ℕ)}
    {l : DataLookup} (h : DataLookup.fromIdAndLenIter items = .ok l) (hmax : total items < 2 ^ 32 - 1) :
    ∃ bs r, l.encode K = some bs ∧ DataLookup.decode K bs = .ok (r, []) ∧
      ∀ (d : Dimensions) (appId : AppId),
        (∀ b, (appSpecificRows b r d appId : Run CommitmentsError _) = appSpecificRows b l d appId) ∧
        ∀ (K' : Codec AppData) (cells : List DataCell),
          decodeAppExtrinsics K' r d cells appId = decodeAppExtrinsics K' l d cells appId := by
  obtain ⟨L, rfl, rfl⟩ := fromIdAndLenIter_eq_ok_iff.mp h
  obtain ⟨-, bs, hbs, hdec⟩ := comesBackAs (L.tryFrom_fromDataLookup hmax.ne)
    (hK _ (lt_of_le_of_lt L.length_fromDataLookup_le L.total_lt))
  refine ⟨bs, _, hbs, hdec, fun d appId => ?_⟩
  have hsame : SameRange L.lookup (if ∀ x ∈ L.items.head?, x.1 = ⟨0⟩ then L.lookup
      else ⟨(⟨0⟩, ⟨0, 0⟩) :: L.lookup.index⟩) appId := by
    split_ifs with hfirst
    · left
      rfl
    · apply sameRange_phantom
      rw [Layout.lookup, map_fst_ranges]
      exact L.zero_notMem_ids hfirst
  exact ⟨fun b => hsame.appSpecificRows_eq b d, fun K' cells => hsame.decodeAppExtrinsics_eq K' d cells⟩

/-- A block without data of `AppId(0)`. -/
theorem decoded_lookup_same_data_one : ∃ bs r, (DataLookup.mk [(⟨1⟩, ⟨0, 10⟩)]).encode scaleCompact = some bs ∧
    DataLookup.decode scaleCompact bs = .ok (r, []) ∧ ∀ (d : Dimensions) (appId : AppId),
      (∀ b, (appSpecificRows b r d appId : Run CommitmentsError _) =
        appSpecificRows b ⟨[(⟨1⟩, ⟨0, 10⟩)]⟩ d appId) ∧
      ∀ (K' : Codec AppData) (cells : List DataCell),
        decodeAppExtrinsics K' r d cells appId = decodeAppExtrinsics K' ⟨[(⟨1⟩, ⟨0, 10⟩)]⟩ d cells appId :=
  @decoded_lookup_same_data scaleCompact scaleCompact_encode_isSome [(⟨1⟩, 10)] _ (by decide) (by decide)

end AvailCore
