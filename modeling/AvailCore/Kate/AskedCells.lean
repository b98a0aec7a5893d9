import AvailCore.Kate.Sampling
import AvailCore.Recovery.Positions

/-!
# What a light client reads from the cells that it asks for

A client that draws cells of columns with `columns_positions` keeps the columns that
`reconstruct_columns` makes of them. One that follows an application asks for the rows
that `app_specific_rows` names, and reads them with `decode_app_extrinsics`. Both check
every cell, as in `AvailCore.Kate.Sampling`, and here they get all that they ask for.

## What is proved

A client has a forged cell, which takes two openings of one commitment, or it gets what was
published. From 50 percent on, every column of the matrix that was asked for is reconstructed as it
was published, whatever cells were drawn. Below, with a column of the matrix and any
percentage at all, the client still gets them when the percentage that is missing from
50, of the rows, is less than half a row; else it gets an error
(`reconstructColumns_drawn`).

The rows of an application are enough to decode it, as it was published
(`decodeAppExtrinsics_askedRows`).
-/

namespace AvailCore

variable {C P ρ : Type}

section Drawn

variable {T : Traversal ℕ} {D : Chooser ρ Position} {d : Dimensions} {positions : List Position} {factor : UInt8}
  {rng : ρ} {cells : List SingleCell}
  (hdrawn : (cells.map SingleCell.position).Perm (columnsPositions T D d positions factor rng).1)
include hdrawn

theorem length_inColumn_of_drawn (col : ℕ) : (inColumn (cells.map SingleCell.toDataCell) col).length =
    if col < d.width ∧ ∃ p ∈ positions, p.col = col then min (cellsOf d factor) d.extendedRows else 0 := by
  rw [length_inColumn, map_position_toDataCell, hdrawn.countP_eq, countP_columnsPositions]

/-- There are cells of the columns of the matrix that were asked for, if there are any at all. -/
theorem inColumn_ne_nil_iff_of_drawn (hpos : 0 < cellsOf d factor) (col : ℕ) :
    inColumn (cells.map SingleCell.toDataCell) col ≠ [] ↔ col < d.width ∧ ∃ p ∈ positions, p.col = col := by
  have hrows : 0 < d.extendedRows := Nat.mul_pos d.height_pos (by decide)
  rw [← List.length_pos_iff, length_inColumn_of_drawn hdrawn]
  split_ifs with h
  · exact iff_of_true (lt_min hpos hrows) h
  · exact iff_of_false (lt_irrefl 0) h

/-- The columns have enough cells when half of each is drawn. -/
theorem enoughOrNone_iff_of_drawn (hpos : 0 < cellsOf d factor) (hvalid : ∃ p ∈ positions, p.col < d.width) :
    EnoughOrNone d (cells.map SingleCell.toDataCell) ↔ d.height ≤ cellsOf d factor := by
  have hhalf : d.height ≤ d.extendedRows := Nat.le_mul_of_pos_right _ (by decide)
  constructor
  · intro h
    obtain ⟨p, hp, hcol⟩ := hvalid
    have hasked : p.col < d.width ∧ ∃ q ∈ positions, q.col = p.col := ⟨hcol, p, hp, rfl⟩
    have henough := h.enough p.col ((inColumn_ne_nil_iff_of_drawn hdrawn hpos _).mpr hasked)
    rw [length_inColumn_of_drawn hdrawn, if_pos hasked] at henough
    exact (le_min_iff.mp henough).1
  · intro h
    refine ⟨?_, fun col hne => ?_⟩
    · rw [map_position_toDataCell, hdrawn.nodup_iff]
      exact nodup_columnsPositions ..
    · rw [length_inColumn_of_drawn hdrawn, if_pos ((inColumn_ne_nil_iff_of_drawn hdrawn hpos col).mp hne)]
      exact le_min h hhalf

end Drawn

/-- The columns of the grid that were asked for, with the bytes of their scalars, and no others. -/
structure HoldsRequested (A : Ark) (g : EvaluationGrid) (positions : List Position)
    (m : Std.ExtHashMap ℕ (List Chunk)) : Prop where
  requested : ∀ p ∈ positions, p.col < g.dims.width → ∃ chunks, m[p.col]? = some chunks ∧
    List.Forall₂ (fun s b => A.toBytes s = some b) (g.evals.column p.col) chunks
  others : ∀ col, (∀ p ∈ positions, p.col < g.dims.width → p.col ≠ col) → m[col]? = none

/-- **A client gets the columns that it asks for from half of their cells on**, whichever were drawn and whoever
sent them; from fewer it gets an error, unless they are as many when rounded up. Or one of the cells is forged. -/
theorem reconstructColumns_drawn {A : Ark} (hA : A.HasHalves) (R : Runtime)
    (T : Traversal (ℕ × Std.HashMap ℕ DataCell)) (S : CellScheme C P) {g e : EvaluationGrid}
    (he : g.extendColumns A ⟨extensionFactor, by decide⟩ = .ok e) {commitments : List (List UInt8)}
    (hcommit : e.commitmentsBytes A S.toCommitter = .ok commitments) (hopens : e.Opens A S)
    (T' : Traversal ℕ) (D : Chooser ρ Position) {positions : List Position}
    (hvalid : ∃ p ∈ positions, p.col < g.dims.width) {factor : UInt8} (hfactor : 0 < factor) (rng : ρ)
    {cells : List SingleCell} (hcells : ∀ c ∈ cells, Sampled A S g.dims commitments c)
    (hdrawn : (cells.map SingleCell.position).Perm (columnsPositions T' D g.dims positions factor rng).1) :
    (∃ c ∈ cells, Forged A S e commitments c) ∨
    ((50 - factor.toNat) * g.dims.height < 50 →
      ∃ m, reconstructColumns A R T g.dims cells = .ok m ∧ HoldsRequested A g positions m) ∧
    (50 ≤ (50 - factor.toNat) * g.dims.height →
      ∃ error, reconstructColumns A R T g.dims cells = Run.fail error) := by
  obtain ⟨-, hwidth, -⟩ := exists_columnDomains_of_extendColumns he
  refine (forged_or_hasCell hcommit hopens hwidth hcells).imp_right fun hvalue => ?_
  have hpos : 0 < cellsOf g.dims factor := by
    have hrows : 0 < factor.toNat * g.dims.extendedRows :=
      Nat.mul_pos (UInt8.lt_iff_toNat_lt.mp hfactor) (Nat.mul_pos g.dims.height_pos (by decide))
    exact Nat.div_pos (by omega) (by decide)
  have henough := enoughOrNone_iff_of_drawn hdrawn hpos hvalid
  rw [height_le_cellsOf_iff] at henough
  obtain ⟨hok, hfail⟩ := reconstructColumns_published hA R T he hvalue
  refine ⟨fun h => ?_, fun h => hfail fun h' => absurd (henough.mp h') (not_lt.mpr h)⟩
  obtain ⟨m, hm, hholds⟩ := hok (henough.mpr h)
  have hne := inColumn_ne_nil_iff_of_drawn hdrawn hpos
  refine ⟨m, hm, fun p hp hcol => ?_, fun col hother => ?_⟩
  · obtain ⟨c, hc⟩ := List.exists_mem_of_ne_nil _ ((hne p.col).mpr ⟨hcol, p, hp, rfl⟩)
    obtain ⟨hc, hposition⟩ := List.mem_filter.mp hc
    obtain ⟨cell, hcell, rfl⟩ := List.mem_map.mp hc
    have hsame : cell.position.col = p.col := of_decide_eq_true hposition
    rw [← hsame]
    exact hholds.sampled cell hcell
  · refine hholds.others col fun c hc hcol => ?_
    obtain ⟨hlt, p, hp, hsame⟩ := (hne col).mp (inColumn_ne_nil_of_sampled ⟨c, hc, hcol⟩)
    exact hother p hp (hsame ▸ hlt) hsame

/-- Half of the cells of two columns of the matrix, of three that are asked for. -/
theorem reconstructColumns_drawn_two : ∃ (cells : List SingleCell) (m : Std.ExtHashMap ℕ (List Chunk)),
    (∀ c ∈ cells, Sampled bls12381 (CellScheme.atPoint 5) twoAppsGrid.dims twoAppsCommitments c) ∧
    (cells.map SingleCell.position).Perm (columnsPositions (Traversal.plain ℕ) (Chooser.first Unit Position)
      twoAppsGrid.dims [⟨0, 1⟩, ⟨2, 3⟩, ⟨1, 1⟩, ⟨0, 9⟩] 50 ()).1 ∧
    reconstructColumns bls12381 Runtime.plain (Traversal.plain _) twoAppsGrid.dims cells = .ok m ∧
    HoldsRequested bls12381 twoAppsGrid [⟨0, 1⟩, ⟨2, 3⟩, ⟨1, 1⟩, ⟨0, 9⟩] m := by
  obtain ⟨cells, hpositions, hsampled, hvalue⟩ := @exists_sampled_twoApps
    (columnsPositions (Traversal.plain ℕ) (Chooser.first Unit Position) twoAppsGrid.dims
      [⟨0, 1⟩, ⟨2, 3⟩, ⟨1, 1⟩, ⟨0, 9⟩] 50 ()).1
    fun p hp => twoAppsGrid.dims.extendedContains_iff.mp (extendedContains_of_mem_columnsPositions _ _ _ _ _ _ hp)
  have hdrawn : (cells.map SingleCell.position).Perm (columnsPositions (Traversal.plain ℕ) (Chooser.first Unit Position)
      twoAppsGrid.dims [⟨0, 1⟩, ⟨2, 3⟩, ⟨1, 1⟩, ⟨0, 9⟩] 50 ()).1 := .of_eq hpositions
  have hvalid : ∃ p ∈ [(⟨0, 1⟩ : Position), ⟨2, 3⟩, ⟨1, 1⟩, ⟨0, 9⟩], p.col < twoAppsGrid.dims.width := by decide
  have hrun := reconstructColumns_drawn bls12381_hasHalves Runtime.plain (Traversal.plain _) (CellScheme.atPoint 5)
    extendColumns_twoApps commitmentsBytes_twoApps (opens_atPoint 5 _) (Traversal.plain ℕ)
    (Chooser.first Unit Position) hvalid (by decide) () hsampled hdrawn
  obtain ⟨m, hm, hholds⟩ := (hrun.resolve_left (not_exists_forged hvalue)).1 (by decide)
  exact ⟨cells, m, hsampled, hdrawn, hm, hholds⟩

/-- The rows that are named for an application are those of its positions, and hold them. -/
theorem exists_appSpecificRows_of_positions (b : Build) {index : DataLookup} {d : Dimensions} {id : AppId}
    {positions : List Position} (hpositions : appSpecificCells index d id = some positions) (hne : positions ≠ []) :
    ∃ rows, (appSpecificRows b index d id : Run CommitmentsError _) = .ok rows ∧ rows.Pairwise (· < ·) ∧
      (∀ i ∈ rows, ∃ p ∈ positions, p.row = i) ∧ ∀ p ∈ positions, p ∈ d.extendedRowsPositions rows := by
  obtain ⟨range, hrange, -⟩ := Option.bind_eq_some_iff.mp hpositions
  obtain ⟨hend, hmap⟩ := (appSpecificCells_eq_some hrange).mp hpositions
  have hlt : range.start < range.end_ := by
    rw [hmap, Ne, List.map_eq_nil_iff, List.range'_eq_nil_iff] at hne
    exact UInt32.lt_iff_toNat_lt.mpr (by omega)
  obtain ⟨rows, hrows, hordered, hmem⟩ := rowsMatchCells_of_lt (b := b) hrange hlt hend
  rw [hpositions, Option.getD_some] at hmem
  refine ⟨rows, hrows, hordered, fun i => (hmem i).mp, ?_⟩
  exact appSpecificCells_subset_extendedRowsPositions hpositions fun p hp => (hmem _).mpr ⟨p, hp, rfl⟩

/-- **A client that asks for the rows of an application reads it as it was published**, whoever sent the cells, unless
one of them is forged. -/
theorem decodeAppExtrinsics_askedRows {A : Ark} (K : Codec AppData) (rng : Rng) (S : CellScheme C P)
    {extrinsics : List AppExtrinsic} {minWidth maxWidth maxHeight : ℕ} {rngSeed : Seed} {g e : EvaluationGrid}
    (hg : EvaluationGrid.fromExtrinsics A K rng extrinsics minWidth maxWidth maxHeight rngSeed = .ok g)
    (he : g.extendColumns A ⟨extensionFactor, by decide⟩ = .ok e) (hlen : g.lookup.len.toNat * chunkSize < 2 ^ 32)
    {commitments : List (List UInt8)} (hcommit : e.commitmentsBytes A S.toCommitter = .ok commitments)
    (hopens : e.Opens A S) (b : Build) {id : AppId}
    (hid : id ∈ extrinsics.map AppExtrinsic.appId) :
    ∃ rows, (appSpecificRows b g.lookup g.dims id : Run CommitmentsError _) = .ok rows ∧
      ∀ cells : List SingleCell, (∀ c ∈ cells, Sampled A S g.dims commitments c) →
        (cells.map SingleCell.position).Perm (g.dims.extendedRowsPositions rows) →
        (∃ c ∈ cells, Forged A S e commitments c) ∨
        decodeAppExtrinsics K g.lookup g.dims (cells.map SingleCell.toDataCell) id =
          .ok (extrinsicsOf id extrinsics) := by
  obtain ⟨-, hwidth, -⟩ := exists_columnDomains_of_extendColumns he
  obtain ⟨positions, hpositions, hne, hdecode⟩ := exists_decodeAppExtrinsics_published hg he hlen hid
  obtain ⟨rows, hrows, hordered, -, hin⟩ := exists_appSpecificRows_of_positions b hpositions hne
  refine ⟨rows, hrows, fun cells hcells hasked => ?_⟩
  refine (forged_or_hasCell hcommit hopens hwidth hcells).imp_right fun hvalue => ?_
  rw [← map_position_toDataCell] at hasked
  apply hdecode
  · rw [mappable_iff_nodup he hvalue, hasked.nodup_iff]
    exact g.dims.nodup_extendedRowsPositions (hordered.imp fun h => h.ne)
  · exact fun p hp => hasked.mem_iff.mpr (hin p hp)
  · exact fun c hc _ => hvalue c hc

/-- Both rows of the application with more than one chunk, with the cells of the other one and of the filler. -/
theorem decodeAppExtrinsics_askedRows_two : ∃ cells : List SingleCell,
    cells.map SingleCell.position = twoAppsGrid.dims.extendedRowsPositions [0, 2] ∧
    (∀ c ∈ cells, Sampled bls12381 (CellScheme.atPoint 5) twoAppsGrid.dims twoAppsCommitments c) ∧
    decodeAppExtrinsics scaleAppData twoAppsGrid.lookup twoAppsGrid.dims (cells.map SingleCell.toDataCell) ⟨2⟩ =
      .ok [List.replicate 100 7] := by
  obtain ⟨rows, hrows, hdecode⟩ := decodeAppExtrinsics_askedRows scaleAppData _ (CellScheme.atPoint 5)
    (fromExtrinsics_twoApps (List.Vector.replicate 32 0)) extendColumns_twoApps (by decide) commitmentsBytes_twoApps
    (opens_atPoint 5 _) .checked (by decide : (⟨2⟩ : AppId) ∈ twoApps.map AppExtrinsic.appId)
  obtain rfl : [0, 2] = rows := Except.ok.inj hrows
  obtain ⟨cells, hpositions, hsampled, hvalue⟩ :=
    @exists_sampled_twoApps (twoAppsGrid.dims.extendedRowsPositions [0, 2]) (by decide)
  exact ⟨cells, hpositions, hsampled,
    (hdecode cells hsampled (hpositions ▸ List.Perm.refl _)).resolve_left (not_exists_forged hvalue)⟩

end AvailCore
