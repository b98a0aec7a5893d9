import AvailCore.Kate.AskedCells
import AvailCore.Recovery.Rows

/-!
# Rows that are joined from cells

A light client that has verified cells of its own can check rows with them: it joins the
cells with `data::rows` and hands the rows to `verify_equality`, which tells it the rows of
its application that it still has to fetch.

## The model

The vector of rows has what `data::rows` kept, each row at its index (`joinedRows`). The
client has verified all its cells, in distinct positions and in any order.

## What is proved

Without a forged cell, a row with a cell for each column is joined to the bytes that were
published (`rowBytes_inRow`). So `verify_equality` verifies the rows of the application that
have a cell for each column and misses the others, and with the cells of these, if none of
them is forged, the client reads the application (`verifyEquality_joinedRows`).
-/

namespace AvailCore

/-- The bytes of the row with this index. -/
def joinedRow (rows : List (ℕ × List UInt8)) (i : ℕ) : Option (List UInt8) :=
  (rows.find? fun row => row.1 == i).map Prod.snd

/-- A vector of the rows that are joined, at their indices. -/
def joinedRows (d : Dimensions) (cells : List SingleCell) : List (Option (List UInt8)) :=
  (List.range d.extendedRows).map (joinedRow (dataRows d cells))

/-- There are as many cells of a row as it has columns. -/
def wholeRow (d : Dimensions) (cells : List SingleCell) (i : ℕ) : Bool := (inRow i cells).length == d.width

theorem wholeRow_eq_countP (d : Dimensions) (cells : List SingleCell) (i : ℕ) :
    wholeRow d cells i = ((cells.map SingleCell.position).countP (fun p => p.row = i) == d.width) := by
  rw [wholeRow, inRow, ← List.countP_eq_length_filter, List.countP_map]
  rfl

/-- The bytes of the cells of a row, in the order of the columns. -/
def rowData (cells : List SingleCell) (i : ℕ) : List UInt8 :=
  (inRow i (cells.mergeSort fun a b => a.position.le b.position)).flatMap fun c => c.data.val

theorem joinedRow_dataRows (d : Dimensions) (cells : List SingleCell) (i : ℕ) :
    joinedRow (dataRows d cells) i = if wholeRow d cells i then some (rowData cells i) else none := by
  rw [joinedRow]
  cases hfind : (dataRows d cells).find? fun row => row.1 == i with
  | none =>
    rw [List.find?_eq_none] at hfind
    have hshort : ¬ wholeRow d cells i = true := by
      intro hwhole
      exact hfind (i, rowData cells i) (mem_dataRows.mpr ⟨eq_of_beq hwhole, rfl⟩) BEq.rfl
    rw [if_neg hshort]
    rfl
  | some row =>
    obtain ⟨r, bytes⟩ := row
    obtain rfl : r = i := by simpa using List.find?_some hfind
    obtain ⟨hcount, rfl⟩ := mem_dataRows.mp (List.mem_of_find?_eq_some hfind)
    have hwhole : wholeRow d cells r = true := beq_iff_eq.mpr hcount
    rw [if_pos hwhole]
    rfl

section Joined

variable {A : Ark} {g e : EvaluationGrid} (he : g.extendColumns A ⟨extensionFactor, by decide⟩ = .ok e)
  {cells : List SingleCell} (hvalue : ∀ c ∈ cells.map SingleCell.toDataCell, e.HasCell A c)
  (hnodup : (cells.map SingleCell.position).Nodup)
include he hvalue hnodup

/-- Cells in distinct positions, as many as columns, are one for each column. -/
theorem oneForEachColumn_of_wholeRow {i : ℕ} (hwhole : wholeRow g.dims cells i = true) :
    OneForEachColumn g.dims cells i := by
  obtain ⟨-, hwidth, -⟩ := exists_columnDomains_of_extendColumns he
  rw [oneForEachColumn_iff_perm]
  have hdistinct : ((inRow i cells).map fun c => c.position).Nodup := by
    rw [map_position_inRow]
    exact hnodup.filter _
  have hsub : ((inRow i cells).map fun c => c.position) ⊆ columnPositions g.dims i := by
    intro p hp
    obtain ⟨c, hc, rfl⟩ := List.mem_map.mp hp
    obtain ⟨hc, hrow⟩ := mem_inRow.mp hc
    obtain ⟨s, hs, -⟩ := hvalue _ (List.mem_map_of_mem hc)
    have hcol := (DMatrix.lt_of_get_eq_some hs).2
    exact mem_columnPositions.mpr ⟨hrow, hwidth ▸ hcol⟩
  refine (hdistinct.subperm hsub).perm_of_length_le ?_
  rw [List.length_map, length_columnPositions, eq_of_beq hwhole]

/-- **A row with a cell for each column is joined to the bytes that were published.** -/
theorem rowBytes_inRow {i : ℕ} (hwhole : wholeRow g.dims cells i = true) :
    rowBytes A (e.evals.row i) = some (rowData cells i) := by
  obtain ⟨chunk, hchunk, hjoin⟩ := exists_chunk_rowBytes A
  obtain ⟨-, hwidth, -⟩ := exists_columnDomains_of_extendColumns he
  have hpositions := (oneForEachColumn_of_wholeRow he hvalue hnodup hwhole).map_position_mergeSort
  rw [hjoin, rowData, List.flatMap_def, Option.some.injEq]
  congr 1
  -- column by column: the cell there has the bytes of the scalar there
  have hcell : ∀ col < g.dims.width, ∃ c s,
      (inRow i (cells.mergeSort fun a b => a.position.le b.position))[col]? = some c ∧
        e.evals.get i col = some s ∧ (chunk s).val = c.data.val := by
    intro col hcol
    have hat : (columnPositions g.dims i)[col]? = some ⟨i, col⟩ := by
      rw [columnPositions, List.getElem?_map, List.getElem?_range hcol, Option.map_some]
    rw [← hpositions, List.getElem?_map] at hat
    obtain ⟨c, hc, hposition⟩ := Option.map_eq_some_iff.mp hat
    have hmem := List.mem_mergeSort.mp (mem_inRow.mp (List.mem_of_getElem? hc)).1
    obtain ⟨s, hs, hbytes⟩ := hvalue _ (List.mem_map_of_mem hmem)
    rw [SingleCell.toDataCell, hposition] at hs
    exact ⟨c, s, hc, hs, congrArg Subtype.val (Option.some.inj ((hchunk s).symm.trans hbytes))⟩
  have hrow : i < e.dims.height := by
    obtain ⟨-, s, -, hs, -⟩ := hcell 0 g.dims.width_pos
    exact (DMatrix.lt_of_get_eq_some hs).1
  have hcount : (inRow i (cells.mergeSort fun a b => a.position.le b.position)).length = g.dims.width := by
    have hlength := congrArg List.length hpositions
    rwa [List.length_map, length_columnPositions] at hlength
  refine List.ext_getElem? fun col => ?_
  rw [List.getElem?_map, List.getElem?_map]
  rcases lt_or_ge col g.dims.width with hcol | hcol
  · obtain ⟨c, s, hc, hs, hdata⟩ := hcell col hcol
    rw [e.evals.getElem?_row hrow, hs, hc, Option.map_some, Option.map_some, hdata]
  · rw [List.getElem?_eq_none (hcount.le.trans hcol), List.getElem?_eq_none]
    · rfl
    · rw [e.evals.length_row hrow]
      exact (hwidth ▸ hcol)

/-- The vector of the rows that are joined is that of the published rows that have a cell for each column. -/
theorem joinedRows_eq_supplied : joinedRows g.dims cells = e.supplied A (wholeRow g.dims cells) := by
  obtain ⟨hheight, -, -⟩ := exists_columnDomains_of_extendColumns he
  have hextended : g.dims.extendedRows = e.dims.height := hheight.symm
  rw [joinedRows, EvaluationGrid.supplied, hextended]
  refine List.map_congr_left fun i _ => ?_
  rw [joinedRow_dataRows]
  split_ifs with hwhole
  · exact (rowBytes_inRow he hvalue hnodup hwhole).symm
  · rfl

/-- Such a row has a cell in each of its positions. -/
theorem mem_of_wholeRow {p : Position} (hcol : p.col < g.dims.width) (hwhole : wholeRow g.dims cells p.row = true) :
    p ∈ cells.map SingleCell.position := by
  have hperm := oneForEachColumn_iff_perm.mp (oneForEachColumn_of_wholeRow he hvalue hnodup hwhole)
  obtain ⟨c, hc, rfl⟩ := List.mem_map.mp (hperm.mem_iff.mpr (mem_columnPositions.mpr ⟨rfl, hcol⟩))
  exact List.mem_map_of_mem (mem_inRow.mp hc).1

end Joined

/-- **A client verifies the rows that it can join, and fetches the others**, unless a cell is forged. Of the rows of an
application, `verify_equality` verifies those with a cell for each column and misses the others; with the cells of the
rows that it misses, the client reads the application as it was published. -/
theorem verifyEquality_joinedRows {C P : Type} (b : Build) {A : Ark} (K : Codec AppData) (rng : Rng)
    (S : CellScheme C P) {extrinsics : List AppExtrinsic} {minWidth maxWidth maxHeight : ℕ} {rngSeed : Seed}
    {g e : EvaluationGrid}
    (hg : EvaluationGrid.fromExtrinsics A K rng extrinsics minWidth maxWidth maxHeight rngSeed = .ok g)
    (he : g.extendColumns A ⟨extensionFactor, by decide⟩ = .ok e) (hlen : g.lookup.len.toNat * chunkSize < 2 ^ 32)
    {commitments : List (List UInt8)} (hcommit : e.commitmentsBytes A S.toCommitter = .ok commitments)
    (hopens : e.Opens A S) {cells : List SingleCell} (hcells : ∀ c ∈ cells, Sampled A S g.dims commitments c)
    (hnodup : (cells.map SingleCell.position).Nodup) {id : AppId} (hid : id ∈ extrinsics.map AppExtrinsic.appId) :
    (∃ c ∈ cells, Forged A S e commitments c) ∨
    ∃ rows, (appSpecificRows b g.lookup g.dims id : Run CommitmentsError _) = .ok rows ∧
      verifyEquality b A S.toCommitter commitments (joinedRows g.dims cells) g.lookup g.dims id =
        .ok (rows.filter (wholeRow g.dims cells), rows.filter fun i => !wholeRow g.dims cells i) ∧
      ∀ fetched : List SingleCell, (∀ c ∈ fetched, Sampled A S g.dims commitments c) →
        (fetched.map SingleCell.position).Perm
          (g.dims.extendedRowsPositions (rows.filter fun i => !wholeRow g.dims cells i)) →
        (∃ c ∈ fetched, Forged A S e commitments c) ∨
        decodeAppExtrinsics K g.lookup g.dims
          (((cells.filter fun c => wholeRow g.dims cells c.position.row) ++ fetched).map SingleCell.toDataCell) id =
            .ok (extrinsicsOf id extrinsics) := by
  obtain ⟨hheight, hwidth, -⟩ := exists_columnDomains_of_extendColumns he
  refine (forged_or_hasCell hcommit hopens hwidth hcells).imp_right fun hvalue => ?_
  obtain ⟨positions, hpositions, hne, hdecode⟩ := exists_decodeAppExtrinsics_published hg he hlen hid
  obtain ⟨rows, hrows, hordered, hof, hin⟩ := exists_appSpecificRows_of_positions b hpositions hne
  have hlt : ∀ i ∈ rows, i < e.dims.height := by
    intro i hi
    obtain ⟨p, hp, rfl⟩ := hof i hi
    obtain ⟨hcontains, -⟩ := g.dims.mem_extendedRowsPositions.mp (hin p hp)
    rw [hheight]
    exact (g.dims.extendedContains_iff.mp hcontains).1
  refine ⟨rows, hrows, ?_, fun fetched hfetched hasked => ?_⟩
  · rw [joinedRows_eq_supplied he hvalue hnodup]
    exact verifyEquality_supplied hcommit hheight hwidth hrows hordered hlt _
  refine (forged_or_hasCell hcommit hopens hwidth hfetched).imp_right fun hfetchedValue => ?_
  -- a row comes from what the client had or from what it fetched, and never from both
  have hunionValue : ∀ c ∈ ((cells.filter fun c => wholeRow g.dims cells c.position.row) ++ fetched).map
      SingleCell.toDataCell, e.HasCell A c := by
    rw [List.map_append, List.forall_mem_append]
    exact ⟨fun c hc => hvalue c ((List.filter_sublist.map _).subset hc), hfetchedValue⟩
  apply hdecode
  · rw [mappable_iff_nodup he hunionValue, map_position_toDataCell, List.map_append]
    refine List.Nodup.append (hnodup.sublist (List.filter_sublist.map _)) ?_ ?_
    · rw [hasked.nodup_iff]
      exact g.dims.nodup_extendedRowsPositions ((hordered.imp fun h => h.ne).filter _)
    · intro p hp hp'
      obtain ⟨c, hc, rfl⟩ := List.mem_map.mp hp
      obtain ⟨-, hrow⟩ := g.dims.mem_extendedRowsPositions.mp (hasked.mem_iff.mp hp')
      simp [(List.mem_filter.mp hc).2] at hrow
  · intro p hp
    obtain ⟨hcontains, hrow⟩ := g.dims.mem_extendedRowsPositions.mp (hin p hp)
    rw [map_position_toDataCell, List.map_append, List.mem_append]
    by_cases hwhole : wholeRow g.dims cells p.row = true
    · left
      obtain ⟨c, hc, rfl⟩ := List.mem_map.mp
        (mem_of_wholeRow he hvalue hnodup (g.dims.extendedContains_iff.mp hcontains).2 hwhole)
      exact List.mem_map_of_mem (List.mem_filter.mpr ⟨hc, hwhole⟩)
    · right
      rw [hasked.mem_iff]
      exact g.dims.mem_extendedRowsPositions.mpr ⟨hcontains, List.mem_filter.mpr ⟨hrow, by simpa using hwhole⟩⟩
  · exact fun c hc _ => hunionValue c hc

/-- The first row of the application is there, of the second one cell; the cells of the second are fetched. -/
theorem verifyEquality_joinedRows_two : ∃ cells fetched : List SingleCell,
    cells.map SingleCell.position = [⟨2, 1⟩, ⟨0, 3⟩, ⟨0, 2⟩, ⟨0, 1⟩, ⟨0, 0⟩] ∧
    verifyEquality .checked bls12381 (CellScheme.atPoint 5).toCommitter twoAppsCommitments
      (joinedRows twoAppsGrid.dims cells) twoAppsGrid.lookup twoAppsGrid.dims ⟨2⟩ = .ok ([0], [2]) ∧
    fetched.map SingleCell.position = twoAppsGrid.dims.extendedRowsPositions [2] ∧
    decodeAppExtrinsics scaleAppData twoAppsGrid.lookup twoAppsGrid.dims
      (((cells.filter fun c => wholeRow twoAppsGrid.dims cells c.position.row) ++ fetched).map SingleCell.toDataCell)
      ⟨2⟩ = .ok [List.replicate 100 7] := by
  obtain ⟨cells, hpositions, hsampled, hvalue⟩ :=
    @exists_sampled_twoApps [⟨2, 1⟩, ⟨0, 3⟩, ⟨0, 2⟩, ⟨0, 1⟩, ⟨0, 0⟩] (by decide)
  obtain ⟨fetched, hfetched, hsampled', hvalue'⟩ :=
    @exists_sampled_twoApps (twoAppsGrid.dims.extendedRowsPositions [2]) (by decide)
  have hrun := verifyEquality_joinedRows .checked scaleAppData _ (CellScheme.atPoint 5)
    (fromExtrinsics_twoApps (List.Vector.replicate 32 0)) extendColumns_twoApps (by decide) commitmentsBytes_twoApps
    (opens_atPoint 5 _) hsampled (by rw [hpositions]; decide)
    (by decide : (⟨2⟩ : AppId) ∈ twoApps.map AppExtrinsic.appId)
  obtain ⟨rows, hrows, hverify, hread⟩ := hrun.resolve_left (not_exists_forged hvalue)
  obtain rfl : [0, 2] = rows := Except.ok.inj hrows
  have hwhole : ∀ i, wholeRow twoAppsGrid.dims cells i =
      ([(⟨2, 1⟩ : Position), ⟨0, 3⟩, ⟨0, 2⟩, ⟨0, 1⟩, ⟨0, 0⟩].countP (fun p => p.row = i) == 4) := by
    intro i
    rw [wholeRow_eq_countP, hpositions]
    rfl
  have hverified : [0, 2].filter (wholeRow twoAppsGrid.dims cells) = [0] := by
    rw [List.filter_congr fun i _ => hwhole i]
    decide
  have hmissing : ([0, 2].filter fun i => !wholeRow twoAppsGrid.dims cells i) = [2] := by
    rw [List.filter_congr fun i _ => congrArg (!·) (hwhole i)]
    decide
  rw [hverified, hmissing] at hverify
  rw [hmissing] at hread
  exact ⟨cells, fetched, hpositions, hverify, hfetched,
    (hread fetched hsampled' (.of_eq hfetched)).resolve_left (not_exists_forged hvalue')⟩

end AvailCore
