import AvailCore.Kate.EvaluationGrid
import AvailCore.Recovery.AppData

/-!
# One application, read from the extended grid

A light client that follows one application fetches the cells of the application only,
from the even rows of the extended matrix, and decodes them with
`decode_app_extrinsics` of `kate/recovery/src/com.rs`: nothing is interpolated.

## What is proved

The scalars of a grid stand at the even rows of its extension (`get_extended`), so that
the bytes of the cells in an application's positions are those of the chunks of its
group. From them the extrinsics of the application come back, in the order of the block
and whatever the other cells hold; without some of them, the first that is missing is
reported (`decodeAppExtrinsics_extended`).
-/

namespace AvailCore

open Chunks Grouping

/-- The extrinsics of one application, in the order of the block. -/
def extrinsicsOf (id : AppId) (extrinsics : List AppExtrinsic) : AppData :=
  (extrinsics.filter fun x => x.appId = id).map AppExtrinsic.data

/-- An application that occurs has a group. -/
theorem mem_groupsOf {id : AppId} {extrinsics : List AppExtrinsic} (h : id ∈ extrinsics.map AppExtrinsic.appId) :
    (id, extrinsicsOf id extrinsics) ∈ groupsOf extrinsics := by
  have hvalues : valuesOf id (extrinsics.map AppExtrinsic.pair) = extrinsicsOf id extrinsics := by
    rw [valuesOf, List.filter_map, List.map_map, extrinsicsOf]
    exact congrArg (List.map _) (List.filter_congr fun x _ => decide_eq_decide.mpr Iff.rfl)
  refine ((grouped_isGrouping _).mem_iff _ _).mpr ⟨hvalues.symm, ?_⟩
  rw [← hvalues, valuesOf_ne_nil, List.map_map]
  exact h

/-! ### Row by row -/

/-- Row by row, `p` is before `q`. -/
def Position.Before (p q : Position) : Prop := p.row < q.row ∨ p.row = q.row ∧ p.col < q.col

theorem Position.Before.asymm {p q : Position} (h : p.Before q) : ¬ q.Before p := by
  unfold Position.Before at h ⊢
  omega

/-- The first of the positions, row by row, that has no cell. -/
structure FirstMissing (positions : List Position) (cells : List DataCell) (p : Position) : Prop where
  mem : p ∈ positions
  missing : p ∉ cells.map DataCell.position
  first : ∀ q ∈ positions, q.Before p → q ∈ cells.map DataCell.position

/-- The cells of the data matrix are numbered row by row. -/
theorem Dimensions.extendedDataPosition_before (d : Dimensions) {i j : ℕ} (h : i < j) :
    (d.extendedDataPosition i).Before (d.extendedDataPosition j) := by
  have hdiv : i / d.width ≤ j / d.width := Nat.div_le_div_right h.le
  rcases hdiv.lt_or_eq with hlt | heq
  · exact Or.inl (Nat.mul_lt_mul_of_pos_right hlt two_pos)
  · refine Or.inr ⟨congrArg (· * extensionFactor) heq, ?_⟩
    have hi := Nat.div_add_mod i d.width
    have hj := Nat.div_add_mod j d.width
    rw [heq] at hi
    show i % d.width < j % d.width
    omega

/-- The positions of an application stand row by row. -/
theorem pairwise_before_of_appSpecificCells {index : DataLookup} {d : Dimensions} {id : AppId}
    {positions : List Position} (h : appSpecificCells index d id = some positions) :
    positions.Pairwise Position.Before := by
  obtain ⟨range, hrange, hpositions⟩ := Option.bind_eq_some_iff.mp h
  obtain ⟨-, rfl⟩ := d.extendedDataPositions_eq_some.mp hpositions
  rw [List.pairwise_map]
  exact (List.pairwise_lt_range' _).imp fun hlt => d.extendedDataPosition_before hlt

/-- Of positions in this order, the first that a search finds without a cell is the first missing. -/
theorem firstMissing_of_find? {positions : List Position} (h : positions.Pairwise Position.Before)
    {cells : List DataCell} {p : Position}
    (hfind : (positions.find? fun p => p ∉ cells.map DataCell.position) = some p) :
    FirstMissing positions cells p := by
  obtain ⟨hmissing, before, after, rfl, hbefore⟩ := List.find?_eq_some_iff_append.mp hfind
  refine ⟨by simp, of_decide_eq_true hmissing, fun q hq hqp => ?_⟩
  obtain ⟨-, hafter, -⟩ := List.pairwise_append.mp h
  rcases List.mem_append.mp hq with hq | hq
  · have hfound := hbefore q hq
    rwa [Bool.not_eq_true', decide_eq_false_iff_not, not_not] at hfound
  · rcases List.mem_cons.mp hq with rfl | hq
    · exact absurd hqp hqp.asymm
    · exact absurd hqp ((List.rel_of_pairwise_cons hafter hq).asymm)

/-! ### The range of a group -/

namespace EvaluationGrid.Carries

variable {A : Ark} {K : Codec AppData} {g : EvaluationGrid} {held : List ((AppId × AppData) × List (List UInt8))}
  {filler : List (List UInt8)} (h : g.Carries A K held filler)
include h

/-- The chunks are those of the bytes that a reconstruction gives. -/
theorem chunksOf : ChunksOf g.dims ((held.map fun x => x.2.flatten).flatten ++ filler.flatten)
    (held.flatMap Prod.snd ++ filler) := by
  refine ⟨?_, h.size, ?_⟩
  · rw [List.flatten_append, List.flatMap_def, List.flatten_flatten, List.map_map]
    rfl
  · intro chunk hchunk
    rcases List.mem_append.mp hchunk with hchunk | hchunk
    · obtain ⟨x, hx, hchunk⟩ := List.mem_flatMap.mp hchunk
      exact (h.holds x hx).length_chunk chunk hchunk
    · exact h.length_chunk chunk hchunk

/-- A group that is held has a range of cells, and is decoded from its bytes. -/
theorem exists_range (hlen : g.lookup.len.toNat * chunkSize < 2 ^ 32) {group : AppId × AppData}
    (hgroup : group ∈ held.map Prod.fst) : ∃ range r, g.lookup.rangeOf group.1 = some range ∧
      range.start < range.end_ ∧ range.end_.toNat ≤ g.dims.size ∧
      range.project (UInt32.ofNat chunkSize) = some r ∧
      unflattenRange K ((held.map fun x => x.2.flatten).flatten ++ filler.flatten) (group.1, r) = .ok group := by
  have hwhole : ((held.map fun x => x.2.flatten).flatten ++ filler.flatten).length % chunkSize = 0 := by
    rw [h.chunksOf.length_data, Nat.mul_mod_left]
  obtain ⟨entry, hentry, r, hproject, hrun⟩ := Except.exists_of_mem_forall₂
    ((exists_unflattenPaddedData_iff hwhole).mp (h.unflattenPaddedData_eq hlen)) hgroup
  have hfst : group.1 = entry.1 := fst_of_unflattenRange hrun
  have hrange : g.lookup.rangeOf entry.1 = some entry.2 := (DataLookup.rangeOf_eq_some h.nodup_ids).mpr hentry
  obtain ⟨hnonempty, hend⟩ := h.of_mem_index hentry
  exact ⟨entry.2, r, hfst ▸ hrange, hnonempty, hend, hproject, hfst ▸ hrun⟩

end EvaluationGrid.Carries

/-! ### The cells of the extended grid -/

section Extended

variable {A : Ark} {k : ℕ} {short d : EvaluationDomain} (hdom : ColumnDomains A k short d) {g e : EvaluationGrid}
  (hk : g.dims.height = 2 ^ k)
  (hcolumns : e.evals.columns = g.evals.columns.map fun col => A.fft d (A.ifft short col))
include hdom hk hcolumns

/-- **The extension leaves a grid as it is**, at the even rows. -/
theorem get_extended {row col : ℕ} {s : ArkScalar} (hs : g.evals.get row col = some s) :
    e.evals.get (row * extensionFactor) col = some s := by
  obtain ⟨-, hcol⟩ := DMatrix.lt_of_get_eq_some hs
  have hlength : (g.evals.column col).length = 2 ^ k := (g.evals.length_column_of_lt hcol).trans hk
  rw [g.evals.get_eq_column] at hs
  rw [e.evals.get_eq_column, DMatrix.column_of_columns_eq hcolumns hcol]
  exact hdom.getElem?_fft_ifft hlength hs

/-- At the position of a cell of the data, it has the bytes of the chunk. -/
theorem chunkIn_extended {K : Codec AppData} {held : List ((AppId × AppData) × List (List UInt8))}
    {filler : List (List UInt8)} (h : g.Carries A K held filler) {cells : List DataCell}
    (hnodup : (cells.map DataCell.position).Nodup) {i : ℕ} (hi : i < g.dims.size)
    (hfound : g.dims.extendedDataPosition i ∈ cells.map DataCell.position)
    (hvalue : ∀ c ∈ cells, c.position = g.dims.extendedDataPosition i → e.HasCell A c) :
    (held.flatMap Prod.snd ++ filler)[i]? = some (chunkIn cells (g.dims.extendedDataPosition i)) := by
  obtain ⟨c, hc, hposition⟩ := List.mem_map.mp hfound
  obtain ⟨s, hs, hbytes⟩ := hvalue c hc hposition
  obtain ⟨s', hs', b, hb, hval⟩ := h.cell _ (g.dims.div_width_lt hi) _ (Nat.mod_lt i g.dims.width_pos)
  have hextended := get_extended hdom hk hcolumns hs'
  rw [hposition] at hs
  obtain rfl : s = s' := Option.some.inj (hs.symm.trans hextended)
  obtain rfl : c.data = b := Option.some.inj (hbytes.symm.trans hb)
  have hcell : cellIn cells (g.dims.extendedDataPosition i) = some c := (cellIn_eq_some hnodup).mpr ⟨hc, hposition⟩
  rw [Nat.div_add_mod', List.getD_eq_getElem _ _ (h.size.symm ▸ hi)] at hval
  rw [List.getElem?_eq_getElem (h.size.symm ▸ hi), ← hval, chunkIn, hcell]

/-- So a range whose cells are all there is decoded from them as from all the data. -/
theorem unflattenRange_extended {K : Codec AppData} {held : List ((AppId × AppData) × List (List UInt8))}
    {filler : List (List UInt8)} (h : g.Carries A K held filler) {cells : List DataCell}
    (hnodup : (cells.map DataCell.position).Nodup) {range r : DataLookupRange}
    (hproject : range.project (UInt32.ofNat chunkSize) = some r) (hend : range.end_.toNat ≤ g.dims.size)
    (hcells : ∀ i, range.start.toNat ≤ i → i < range.end_.toNat →
      g.dims.extendedDataPosition i ∈ cells.map DataCell.position ∧
        ∀ c ∈ cells, c.position = g.dims.extendedDataPosition i → e.HasCell A c) (id : AppId) :
    unflattenRange K (dataIn g.dims cells) (id, r) =
      unflattenRange K ((held.map fun x => x.2.flatten).flatten ++ filler.flatten) (id, r) := by
  refine (chunksOf_dataIn g.dims cells).unflattenRange_congr h.chunksOf hproject (fun i hlo hhi => ?_) K id
  have hi := hhi.trans_le hend
  obtain ⟨hfound, hvalue⟩ := hcells i hlo hhi
  rw [chunkIn_extended hdom hk hcolumns h hnodup hi hfound hvalue, List.getElem?_map, List.getElem?_range hi,
    Option.map_some]

end Extended

/-! ### Decoding -/

/-- **One application is read from its cells alone.** With the cells of its positions as the extended grid has
them, whatever the other cells hold, its extrinsics come back in the order of the block, as they do from a
reconstruction of the whole; without some of them, the first that is missing is reported. -/
theorem decodeAppExtrinsics_extended (A : Ark) (R : Runtime) (K : Codec AppData) (rng : Rng)
    {extrinsics : List AppExtrinsic} {minWidth maxWidth maxHeight : ℕ} {rngSeed : Seed} {g e : EvaluationGrid}
    (hg : EvaluationGrid.fromExtrinsics A K rng extrinsics minWidth maxWidth maxHeight rngSeed = .ok g)
    (he : g.extendColumns A ⟨extensionFactor, by decide⟩ = .ok e) (hlen : g.lookup.len.toNat * chunkSize < 2 ^ 32)
    {id : AppId} (hid : id ∈ extrinsics.map AppExtrinsic.appId) :
    ∃ positions, appSpecificCells g.lookup g.dims id = some positions ∧
      (∀ cells, Mappable g.dims cells →
        ((∀ p ∈ positions, p ∈ cells.map DataCell.position) →
          (∀ c ∈ cells, c.position ∈ positions → e.HasCell A c) →
          decodeAppExtrinsics K g.lookup g.dims cells id = .ok (extrinsicsOf id extrinsics)) ∧
        ((∃ p ∈ positions, p ∉ cells.map DataCell.position) → ∃ p, FirstMissing positions cells p ∧
          decodeAppExtrinsics K g.lookup g.dims cells id = Run.fail (.missingCell p))) ∧
      ∀ cells, (∀ c ∈ cells, e.HasCell A c) → (cells.map DataCell.position).Nodup →
        (∀ col < e.dims.width, g.dims.height ≤ (inColumn cells col).length) →
        reconstructAppExtrinsics A R K g.lookup g.dims cells id = .ok (extrinsicsOf id extrinsics) := by
  obtain ⟨-, hcarries⟩ := EvaluationGrid.carries_of_fromExtrinsics hg
  obtain ⟨hheight, hwidth, k, short, d, hk, hdom, hcolumns⟩ := hcarries.exists_columnDomains he
  have hgroup : (id, extrinsicsOf id extrinsics) ∈ (chunkedGroups K (groupsOf extrinsics)).map Prod.fst := by
    rw [map_fst_chunkedGroups]
    exact mem_groupsOf hid
  obtain ⟨range, r, hrange, hnonempty, hend, hproject, hrun⟩ := hcarries.exists_range hlen hgroup
  have hprojected : g.lookup.projectedRangeOf id (UInt32.ofNat chunkSize) = some r := by
    rw [DataLookup.projectedRangeOf, hrange, Option.bind_some, hproject]
  obtain ⟨positions, hpositions, hne, hmem⟩ := exists_appSpecificCells hrange hnonempty hend
  refine ⟨positions, hpositions, fun cells hmap => ⟨fun hfound hvalue => ?_, fun hmissing => ?_⟩, ?_⟩
  · refine decodeAppExtrinsics_eq_ok hpositions hne hmap hfound hprojected ?_
    rw [unflattenRange_extended hdom hk hcolumns hcarries hmap.nodup hproject hend fun i hlo hhi => ?_]
    · exact hrun
    · have hposition := (hmem (g.dims.extendedDataPosition i)).mpr ⟨i, hlo, hhi, rfl⟩
      exact ⟨hfound _ hposition, fun c hc hc' => hvalue c hc (hc' ▸ hposition)⟩
  · obtain ⟨p, hfirst⟩ := exists_find?_missing hmissing
    exact ⟨p, firstMissing_of_find? (pairwise_before_of_appSpecificCells hpositions) hfirst,
      decodeAppExtrinsics_of_missing hpositions hmap hfirst⟩
  · intro cells hvalue hnodup hhalf
    have hcells := halfOf_of_columns_eq hheight hwidth hcolumns hvalue hnodup hhalf
    exact reconstructAppExtrinsics_eq_ok_iff.mpr
      ⟨_, hcarries.reconstructAvailable_eq hdom hk hcells R, r, hprojected, hrun⟩

/-- The cells of the extrinsic of 100 bytes. -/
def longPositions : List Position := [⟨0, 1⟩, ⟨0, 2⟩, ⟨0, 3⟩, ⟨2, 0⟩]

theorem appSpecificCells_twoApps :
    appSpecificCells twoAppsGrid.lookup twoAppsGrid.dims ⟨2⟩ = some longPositions := by
  decide

theorem decodeAppExtrinsics_extended_two :
    decodeAppExtrinsics scaleAppData twoAppsGrid.lookup twoAppsGrid.dims
      (longPositions.map (twoAppsExtended.cellAt bls12381)) ⟨2⟩ = .ok [List.replicate 100 7] := by
  obtain ⟨positions, hpositions, hdecode, -⟩ := @decodeAppExtrinsics_extended bls12381 Runtime.plain scaleAppData
    _ _ _ _ _ _ _ _ (fromExtrinsics_twoApps (List.Vector.replicate 32 0)) extendColumns_twoApps (by decide) ⟨2⟩
    (by decide)
  obtain rfl : longPositions = positions := Option.some.inj (appSpecificCells_twoApps.symm.trans hpositions)
  have hposition := twoAppsExtended.map_position_cellAt bls12381 longPositions
  have hcells := @EvaluationGrid.hasCell_cellAt bls12381 twoAppsExtended longPositions (by decide)
  refine (hdecode _ ⟨?_, ?_⟩).1 ?_ fun c hc _ => hcells c hc
  · rw [List.forall_mem_map]
    decide
  · rw [hposition]
    decide
  · rw [hposition]
    exact fun p hp => hp

end AvailCore
