import AvailCore.Kate.JoinedRows
import AvailCore.Recovery.AppPositions

/-!
# An application, read from rows that anyone may have sent

A light client that follows one application may also fetch whole rows. It splits the
header's commitments (`from_slice`), joins cells to rows (`data::rows`), hands both to
`verify_equality`, and reads the application from the rows that are verified.

## The model

The cells that the rows are joined from are any cells: none of them is verified on its
own. The vector of rows has what `data::rows` kept, each row at its index, or nothing.

There are more polynomials than commitments, so some have the same one, though they are
hard to find. A row that is sent with another polynomial than the published row's, and
with its commitment, is named where there is one (`ForgedRow`).

## What is proved

`verify_equality` does not look at the length of a row, but `data::rows` does, and so the
rows that verify are those that were published, or forged. When none is forged and no row
is missing, the bytes cut from them give the published extrinsics of the application
(`decodeAppExtrinsics_verifiedRows`).
-/

namespace AvailCore

open Chunks

/-- The rows of a vector are among those joined from these cells. -/
def JoinedFrom (d : Dimensions) (sent : List SingleCell) (rows : List (Option (List UInt8))) : Prop :=
  ∀ i row, rows[i]? = some (some row) → (i, row) ∈ dataRows d sent

/-- The bytes of a cell are those of its column in its row. -/
def CutFrom (rows : List (Option (List UInt8))) (c : DataCell) : Prop :=
  ∃ row, rows[c.position.row]? = some (some row) ∧ c.data.val = (row.drop (c.position.col * chunkSize)).take chunkSize

/-- A row that is kept has the bytes of a row. -/
theorem length_of_mem_dataRows {d : Dimensions} {cells : List SingleCell} {r : ℕ} {bytes : List UInt8}
    (h : (r, bytes) ∈ dataRows d cells) : bytes.length = chunkSize * d.width := by
  obtain ⟨hcount, rfl⟩ := mem_dataRows.mp h
  have hperm : (inRow r (cells.mergeSort fun a b => a.position.le b.position)).Perm (inRow r cells) :=
    (List.mergeSort_perm _ _).filter _
  rw [length_flatMap_data, hperm.length_eq, hcount]

/-- The rows that are joined, at their indices, are such a vector. -/
theorem joinedFrom_joinedRows (d : Dimensions) (cells : List SingleCell) :
    JoinedFrom d cells (joinedRows d cells) := by
  intro i row hrow
  rw [joinedRows, List.getElem?_map] at hrow
  obtain ⟨j, hj, hrow⟩ := Option.map_eq_some_iff.mp hrow
  obtain ⟨hlt, rfl⟩ := List.getElem?_eq_some_iff.mp hj
  rw [List.getElem_range, joinedRow_dataRows] at hrow
  split_ifs at hrow with hwhole
  exact mem_dataRows.mpr ⟨eq_of_beq hwhole, (Option.some.inj hrow).symm⟩

/-- What is cut from the bytes of a row is a cell of the grid. -/
theorem hasCell_iff_of_rowBytes {A : Ark} {e : EvaluationGrid} {bytes : List UInt8} {c : DataCell}
    (hbytes : rowBytes A (e.evals.row c.position.row) = some bytes) (hrow : c.position.row < e.dims.height)
    (hcol : c.position.col < e.dims.width) :
    e.HasCell A c ↔ c.data.val = (bytes.drop (c.position.col * chunkSize)).take chunkSize := by
  obtain ⟨chunk, hchunk, hjoin⟩ := exists_chunk_rowBytes A
  obtain ⟨s, hs⟩ := e.evals.exists_get hrow hcol
  rw [hjoin, Option.some.injEq] at hbytes
  have hlength : ∀ b ∈ (e.evals.row c.position.row).map fun s => (chunk s).val, b.length = chunkSize := by
    intro b hb
    obtain ⟨s, -, rfl⟩ := List.mem_map.mp hb
    exact (chunk s).property
  have hin : (e.evals.row c.position.row)[c.position.col]? = some s := by rwa [e.evals.getElem?_row hrow]
  obtain ⟨hlt, hval⟩ := List.getElem?_eq_some_iff.mp hin
  rw [← hbytes, chunk_flatten_uniform hlength (by rwa [List.length_map]), List.getElem_map, hval]
  constructor
  · rintro ⟨s', hs', hdata⟩
    obtain rfl : s = s' := Option.some.inj (hs.symm.trans hs')
    exact congrArg Subtype.val (Option.some.inj (hdata.symm.trans (hchunk s)))
  · intro hcut
    exact ⟨s, hs, by rw [hchunk s, Subtype.ext hcut]⟩

/-- A row that is committed to like the published one, with another polynomial. -/
def ForgedRow {C : Type} (A : Ark) (P : Committer C) (e : EvaluationGrid) (published : List (List UInt8))
    (rows : List (Option (List UInt8))) (i : ℕ) : Prop :=
  ∃ bytes scalars domain commitment, rows[i]? = some (some bytes) ∧ tryIntoScalars A bytes = .ok scalars ∧
    A.newDomain e.dims.width = some domain ∧ published[i]? = some commitment ∧
    P.commitBytes (A.ifft domain scalars) = .ok commitment ∧
    P.commitBytes (A.ifft domain (e.evals.row i)) = .ok commitment ∧
    A.ifft domain scalars ≠ A.ifft domain (e.evals.row i)

/-- **A row that verifies and has the right length is the row that was published, or forged.** -/
theorem forgedRow_or_rowBytes {C : Type} {b : Build} {A : Ark} {P : Committer C} {e : EvaluationGrid}
    {commitments : List (List UInt8)} (hcommit : e.commitmentsBytes A P = .ok commitments) {index : DataLookup}
    {d : Dimensions} (hwidth : e.dims.width = d.width) {rows : List (Option (List UInt8))} {id : AppId}
    {verified missing : List ℕ}
    (hrun : verifyEquality b A P commitments rows index d id = .ok (verified, missing)) {i : ℕ} (hi : i ∈ verified)
    (hlength : ∀ row, rows[i]? = some (some row) → row.length = chunkSize * d.width) :
    ForgedRow A P e commitments rows i ∨
      i < e.dims.height ∧ ∃ bytes, rows[i]? = some (some bytes) ∧ rowBytes A (e.evals.row i) = some bytes := by
  obtain ⟨domain, commitment, row, hdomain, hcommitment, hrow, hverifies⟩ := exists_of_mem_verified hrun hi
  obtain ⟨domain', hdomain', hall⟩ := commitmentsBytes_eq_ok hcommit
  obtain rfl : domain = domain' := by
    rw [hwidth] at hdomain'
    exact Option.some.inj (hdomain.symm.trans hdomain')
  obtain ⟨j, hj, hpublished⟩ := Except.exists_of_getElem?_forall₂ hall hcommitment
  obtain ⟨hlt, hval⟩ := List.getElem?_eq_some_iff.mp hj
  rw [List.length_range] at hlt
  rw [List.getElem_range] at hval
  subst hval
  obtain ⟨bytes, hbytes, hread⟩ := tryIntoScalars_rowBytes A (e.evals.row i)
  obtain ⟨-, _, scalars, hsome, hscalars, hcommitted⟩ := verification_eq_some_iff.mp hverifies
  cases hsome
  by_cases hsame : A.ifft domain scalars = A.ifft domain (e.evals.row i)
  · -- of one polynomial, and as many scalars
    right
    rw [(A.isTransform hdomain').ifft_eq_iff] at hsame
    have hcount : scalars.length = e.dims.width := by
      have hscalarsLength := length_of_tryIntoScalars hscalars
      rw [hlength row hrow, ← hwidth] at hscalarsLength
      exact (Nat.eq_of_mul_eq_mul_left chunkSize_pos hscalarsLength).symm
    have hle : (e.evals.row i).length ≤ domain.size := by
      rw [e.evals.length_row hlt, A.size_newDomain hdomain']
      exact le_nextPowerOfTwo _
    obtain rfl : e.evals.row i = scalars :=
      resizeTo_inj hle ((e.evals.length_row hlt).trans hcount.symm) hsame.symm
    exact ⟨hlt, bytes, by rw [hrow, tryIntoScalars_inj hscalars hread], hbytes⟩
  · exact .inl ⟨row, scalars, domain, commitment, hrow, hscalars, hdomain', hcommitment, hcommitted, hpublished, hsame⟩

/-- The bytes of a published row are not forged. -/
theorem not_forgedRow_of_rowBytes {C : Type} {A : Ark} {P : Committer C} {e : EvaluationGrid}
    {published : List (List UInt8)} {rows : List (Option (List UInt8))} {i : ℕ} {bytes : List UInt8}
    (hrow : rows[i]? = some (some bytes)) (hbytes : rowBytes A (e.evals.row i) = some bytes) :
    ¬ ForgedRow A P e published rows i := by
  rintro ⟨bytes', scalars, domain, commitment, hrow', hscalars, -, -, -, -, hdiffer⟩
  obtain ⟨row, hrowBytes, hread⟩ := tryIntoScalars_rowBytes A (e.evals.row i)
  obtain rfl : bytes = row := Option.some.inj (hbytes.symm.trans hrowBytes)
  obtain rfl : bytes = bytes' := Option.some.inj (Option.some.inj (hrow.symm.trans hrow'))
  obtain rfl : scalars = e.evals.row i := Except.ok.inj (hscalars.symm.trans hread)
  exact hdiffer rfl

/-- The commitments of a grid have the length of a commitment. -/
theorem length_of_mem_commitmentsBytes {C P : Type} {A : Ark} {S : Scheme C P} {e : EvaluationGrid}
    {published : List (List UInt8)} (hcommit : e.commitmentsBytes A S.toCommitter = .ok published) :
    ∀ c ∈ published, c.length = commitmentSize := by
  intro c hc
  obtain ⟨domain, -, hall⟩ := commitmentsBytes_eq_ok hcommit
  obtain ⟨i, -, hbytes⟩ := Except.exists_of_mem_forall₂ hall hc
  simp only [Committer.commitBytes, Except.bind_eq_ok, Run.okOr_eq_ok] at hbytes
  obtain ⟨_, -, htoBytes⟩ := hbytes
  exact S.length_toBytes htoBytes

/-- The commitments of a grid, put one after another in a header, come out of it. -/
theorem fromSlice_commitmentsBytes {C P : Type} {A : Ark} {S : Scheme C P} {e : EvaluationGrid}
    {published : List (List UInt8)} (hcommit : e.commitmentsBytes A S.toCommitter = .ok published)
    {commitments : List (List.Vector UInt8 commitmentSize)} (hheader : fromSlice published.flatten = .ok commitments) :
    (commitments.map fun c => c.val) = published := by
  have hpos : 0 < commitmentSize := by decide
  have hlength : ∀ c ∈ commitments.map (fun c => c.val), c.length = commitmentSize := by
    intro c hc
    obtain ⟨c, -, rfl⟩ := List.mem_map.mp hc
    exact c.property
  calc (commitments.map fun c => c.val)
      = chunksExact commitmentSize (commitments.map fun c => c.val).flatten := (chunksExact_flatten hpos hlength).symm
    _ = chunksExact commitmentSize published.flatten := by rw [fromSlice_eq_ok_iff.mp hheader]
    _ = published := chunksExact_flatten hpos (length_of_mem_commitmentsBytes hcommit)

/-- So there are such commitments. -/
theorem exists_fromSlice {C P : Type} {A : Ark} {S : Scheme C P} {e : EvaluationGrid} {published : List (List UInt8)}
    (hcommit : e.commitmentsBytes A S.toCommitter = .ok published) :
    ∃ commitments, fromSlice published.flatten = .ok commitments ∧ (commitments.map fun c => c.val) = published := by
  have hlength := length_of_mem_commitmentsBytes hcommit
  obtain ⟨commitments, hmap⟩ : ∃ commitments : List (List.Vector UInt8 commitmentSize),
      (commitments.map fun c => c.val) = published := by
    refine ⟨published.pmap (fun c hc => (⟨c, hc⟩ : List.Vector UInt8 commitmentSize)) hlength, ?_⟩
    exact (List.map_pmap hlength).trans (List.pmap_eq_self.mpr fun _ _ => rfl)
  exact ⟨commitments, fromSlice_eq_ok_iff.mpr (by rw [hmap]), hmap⟩

/-- **The rows that verify are the published rows, and an application is read from them**, whoever sent the cells
that they are joined from: when no row of the application is missing, what is cut from the rows in its positions
gives its extrinsics. Or one of the rows is forged. -/
theorem decodeAppExtrinsics_verifiedRows {C P : Type} (b : Build) {A : Ark} (K : Codec AppData) (rng : Rng)
    (S : Scheme C P) {extrinsics : List AppExtrinsic} {minWidth maxWidth maxHeight : ℕ} {rngSeed : Seed}
    {g e : EvaluationGrid}
    (hg : EvaluationGrid.fromExtrinsics A K rng extrinsics minWidth maxWidth maxHeight rngSeed = .ok g)
    (he : g.extendColumns A ⟨extensionFactor, by decide⟩ = .ok e) (hlen : g.lookup.len.toNat * chunkSize < 2 ^ 32)
    {published : List (List UInt8)} (hcommit : e.commitmentsBytes A S.toCommitter = .ok published)
    {commitments : List (List.Vector UInt8 commitmentSize)} (hheader : fromSlice published.flatten = .ok commitments)
    {sent : List SingleCell} {rows : List (Option (List UInt8))} (hrows : JoinedFrom g.dims sent rows) {id : AppId}
    (hid : id ∈ extrinsics.map AppExtrinsic.appId) {verified missing : List ℕ}
    (hrun : verifyEquality b A S.toCommitter (commitments.map fun c => c.val) rows g.lookup g.dims id =
      .ok (verified, missing)) :
    (∃ i ∈ verified, ForgedRow A S.toCommitter e published rows i) ∨
    (∀ i ∈ verified, ∃ bytes, rows[i]? = some (some bytes) ∧ rowBytes A (e.evals.row i) = some bytes) ∧
    (missing = [] → ∃ positions, appSpecificCells g.lookup g.dims id = some positions ∧
      (∀ p ∈ positions, p.row ∈ verified) ∧
      ∀ cells, Mappable g.dims cells → (∀ p ∈ positions, p ∈ cells.map DataCell.position) →
        (∀ c ∈ cells, c.position ∈ positions → CutFrom rows c) →
        decodeAppExtrinsics K g.lookup g.dims cells id = .ok (extrinsicsOf id extrinsics)) := by
  obtain ⟨-, hwidth, -⟩ := exists_columnDomains_of_extendColumns he
  rw [fromSlice_commitmentsBytes hcommit hheader] at hrun
  rw [or_iff_not_imp_left]
  intro hhonest
  have hpublished : ∀ i ∈ verified, i < e.dims.height ∧
      ∃ bytes, rows[i]? = some (some bytes) ∧ rowBytes A (e.evals.row i) = some bytes := by
    intro i hi
    have hrow := forgedRow_or_rowBytes hcommit hwidth hrun hi fun row hrow => length_of_mem_dataRows (hrows i row hrow)
    exact hrow.resolve_left fun hforged => hhonest ⟨i, hi, hforged⟩
  refine ⟨fun i hi => (hpublished i hi).2, fun hnone => ?_⟩
  obtain ⟨positions, hpositions, -, hdecode⟩ := exists_decodeAppExtrinsics_published hg he hlen hid
  -- no row is missing, and the rows are those of the positions
  have hall : ∀ p ∈ positions, p.row ∈ verified := by
    intro p hp
    obtain ⟨-, appRows, happ, hmissing, -⟩ := verifyEquality_eq_ok_iff.mp hrun
    obtain ⟨-, hcarries⟩ := EvaluationGrid.carries_of_fromExtrinsics hg
    obtain ⟨range, hrange, hranged⟩ := Option.bind_eq_some_iff.mp hpositions
    have hdata := hcarries.inData hrange
    obtain ⟨appRows', happ', -, hmem⟩ :=
      @rowsMatchCells_of_lt b g.lookup g.dims id range hrange hdata.nonempty hdata.end_le
    obtain rfl : appRows = appRows' := Except.ok.inj (happ.symm.trans happ')
    rw [hpositions, Option.getD_some] at hmem
    have hnot := hmissing.symm.trans hnone
    rw [List.filter_eq_nil_iff] at hnot
    simpa using hnot _ ((hmem p.row).mpr ⟨p, hp, rfl⟩)
  refine ⟨positions, hpositions, hall, fun cells hmap hfound hcut => hdecode cells hmap hfound fun c hc hposition => ?_⟩
  obtain ⟨hlt, bytes, hrow, hbytes⟩ := hpublished _ (hall _ hposition)
  obtain ⟨row, hrow', hdata⟩ := hcut c hc hposition
  obtain rfl : bytes = row := by simpa using hrow.symm.trans hrow'
  have hcol := (g.dims.extendedContains_iff.mp (hmap.contained c hc)).2
  exact (hasCell_iff_of_rowBytes hbytes hlt (hwidth ▸ hcol)).mpr hdata

/-- Both rows of the application with more than one chunk, joined from cells, and none of the others. -/
theorem decodeAppExtrinsics_verifiedRows_two : ∃ cells : List SingleCell,
    cells.map SingleCell.position = twoAppsGrid.dims.extendedRowsPositions [0, 2] ∧
    verifyEquality .checked bls12381 (Scheme.atPoint 5).toCommitter twoAppsCommitments
      (joinedRows twoAppsGrid.dims cells) twoAppsGrid.lookup twoAppsGrid.dims ⟨2⟩ = .ok ([0, 2], []) ∧
    decodeAppExtrinsics scaleAppData twoAppsGrid.lookup twoAppsGrid.dims (cells.map SingleCell.toDataCell) ⟨2⟩ =
      .ok [List.replicate 100 7] := by
  obtain ⟨cells, hpositions, hsampled, hvalue⟩ :=
    @exists_sampled_twoApps (twoAppsGrid.dims.extendedRowsPositions [0, 2]) (by decide)
  have hnodup : (cells.map SingleCell.position).Nodup := by
    rw [hpositions]
    decide
  have hcellsValue : ∀ c ∈ cells.map SingleCell.toDataCell, twoAppsExtended.HasCell bls12381 c :=
    List.forall_mem_map.mpr hvalue
  have hwhole : ∀ i ∈ [0, 2], wholeRow twoAppsGrid.dims cells i = true := by
    intro i hi
    rw [wholeRow_eq_countP, hpositions]
    revert i
    decide
  have hrun : verifyEquality .checked bls12381 (Scheme.atPoint 5).toCommitter twoAppsCommitments
      (joinedRows twoAppsGrid.dims cells) twoAppsGrid.lookup twoAppsGrid.dims ⟨2⟩ = .ok ([0, 2], []) := by
    rw [joinedRows_eq_supplied extendColumns_twoApps hcellsValue hnodup]
    have hv : (appSpecificRows .checked twoAppsGrid.lookup twoAppsGrid.dims ⟨2⟩ : Run CommitmentsError _) =
      .ok [0, 2] := rfl
    have hmissing : ([0, 2].filter fun i => !wholeRow twoAppsGrid.dims cells i) = [] :=
      List.filter_eq_nil_iff.mpr fun i hi => by simp [hwhole i hi]
    have hverify := @verifyEquality_supplied bls12381 twoAppsExtended _ .checked (Committer.atPoint 5) _
      commitmentsBytes_twoApps twoAppsGrid.lookup twoAppsGrid.dims rfl rfl _ _ hv (by decide) (by decide)
      (wholeRow twoAppsGrid.dims cells)
    rwa [List.filter_eq_self.mpr hwhole, hmissing] at hverify
  have hrow : ∀ i ∈ [0, 2], ∃ bytes, (joinedRows twoAppsGrid.dims cells)[i]? = some (some bytes) ∧
      rowBytes bls12381 (twoAppsExtended.evals.row i) = some bytes := by
    intro i hi
    refine ⟨rowData cells i, ?_, rowBytes_inRow extendColumns_twoApps hcellsValue hnodup (hwhole i hi)⟩
    have hlt : i < twoAppsGrid.dims.extendedRows := by
      revert i
      decide
    rw [joinedRows, List.getElem?_map, List.getElem?_range hlt, Option.map_some, joinedRow_dataRows,
      if_pos (hwhole i hi)]
  obtain ⟨commitments, hheader, hmap⟩ := @exists_fromSlice _ _ _ (Scheme.atPoint 5) _ _ commitmentsBytes_twoApps
  have hread := decodeAppExtrinsics_verifiedRows .checked scaleAppData _ (Scheme.atPoint 5)
    (fromExtrinsics_twoApps (List.Vector.replicate 32 0)) extendColumns_twoApps (by decide) commitmentsBytes_twoApps
    hheader (joinedFrom_joinedRows twoAppsGrid.dims cells)
    (by decide : (⟨2⟩ : AppId) ∈ twoApps.map AppExtrinsic.appId) (hmap.symm ▸ hrun)
  have hhonest : ¬ ∃ i ∈ [0, 2], ForgedRow bls12381 (Scheme.atPoint 5).toCommitter twoAppsExtended twoAppsCommitments
      (joinedRows twoAppsGrid.dims cells) i := by
    rintro ⟨i, hi, hforged⟩
    obtain ⟨bytes, hjoined, hbytes⟩ := hrow i hi
    exact not_forgedRow_of_rowBytes hjoined hbytes hforged
  obtain ⟨positions, happ, hverified, hdecode⟩ := (hread.resolve_left hhonest).2 rfl
  obtain rfl : longPositions = positions := Option.some.inj (appSpecificCells_twoApps.symm.trans happ)
  refine ⟨cells, hpositions, hrun, hdecode _ ?_ ?_ fun c hc hposition => ?_⟩
  · rw [mappable_iff_nodup extendColumns_twoApps hcellsValue, map_position_toDataCell]
    exact hnodup
  · rw [map_position_toDataCell, hpositions]
    decide
  · obtain ⟨s, hs, hdata⟩ := hcellsValue c hc
    obtain ⟨hlt, hcol⟩ := DMatrix.lt_of_get_eq_some hs
    obtain ⟨bytes, hjoined, hbytes⟩ := hrow _ (hverified _ hposition)
    exact ⟨bytes, hjoined, (hasCell_iff_of_rowBytes hbytes hlt hcol).mp ⟨s, hs, hdata⟩⟩

end AvailCore
